import BranchForm.Value.Access

/-!
# Sessions of respondents

A session is what a respondent has done with a form so far. It can be saved and resumed later, also
after the form was changed, so what it says about steps and fields is taken as it comes.

* `Transition` is the record of one move, `Trigger` what caused it;
* `Session` holds the current step, the way into nested fields, the answers, the steps visited and
  the log of moves;
* `Session.encode` and `Session.decode` save and restore a session.
-/

namespace BranchForm

/-- What causes a move between steps. -/
inductive Trigger where
  /-- A choice was picked. -/
  | select
  /-- An answer was given. -/
  | value
  /-- The respondent went on. -/
  | next
  /-- The respondent went back. -/
  | back
  /-- The respondent went to a step by its id. -/
  | jump
  /-- The session was started again. -/
  | restart
  deriving DecidableEq, Repr, Inhabited

/-- The stored name of a trigger. -/
def Trigger.name : Trigger → String
  | .select => "select"
  | .value => "value"
  | .next => "next"
  | .back => "back"
  | .jump => "jump"
  | .restart => "restart"

/-- The record of one move. -/
structure Transition where
  /-- The step before the move. -/
  source : Value
  /-- The step after the move. -/
  target : Value
  /-- The name of what caused the move. -/
  trigger : Value
  /-- When the move was made, if a clock was read. -/
  time : Value := .null
  /-- The field whose answer caused the move, if there is one. -/
  fieldId : Value := .null
  /-- The answer that caused the move, if there is one. -/
  value : Value := .null
  deriving DecidableEq, Repr, Inhabited

namespace Transition

/-- The stored record of a move. -/
def encode (t : Transition) : Value :=
  .record [("from_step", t.source), ("to_step", t.target), ("timestamp", t.time),
    ("trigger", t.trigger), ("field_id", t.fieldId), ("value", t.value)]

/-- The names in the record of a move; the first four must be there. -/
def memberNames : List String :=
  ["from_step", "to_step", "timestamp", "trigger", "field_id", "value"]

/-- Reads the record of a move. -/
def decode (v : Value) : Except Error Transition :=
  match v with
  | .record ms =>
    if ((Members.names ms).all fun name => (memberNames.map Value.text).contains name) ∧
        (memberNames.take 4).all (fun name => Members.has ms name) then
      .ok {
        source := Members.getOrNull ms "from_step"
        target := Members.getOrNull ms "to_step"
        trigger := Members.getOrNull ms "trigger"
        time := Members.getOrNull ms "timestamp"
        fieldId := Members.getOrNull ms "field_id"
        value := Members.getOrNull ms "value" }
    else Value.fail .wrongKind
  | _ => Value.fail .wrongKind

end Transition

/-- What a respondent has done with a form so far. -/
structure Session where
  /-- The step shown. -/
  current : Value
  /-- The fields that lead to the nested fields shown; empty when those of the step are shown. -/
  path : List Value := []
  /-- The answers by field id, in the order they were first given. A respondent may answer under any
  value that can name a member. -/
  answers : Members := []
  /-- The steps visited before, the latest at the end. -/
  history : List Value := []
  /-- Whether the form has been submitted: true once it has. -/
  completed : Value := .bool false
  /-- Every move, the first one first. -/
  transitions : List Transition := []
  deriving DecidableEq, Repr, Inhabited

/-- The member that a pair of values makes. -/
def Value.asMember (v : Value) : Except Error (Value × Value) := do
  match ← v.elements with
  | [name, w] => do
    let name ← name.asKey
    pure (name, w)
  | _ => Value.fail .badValue

/-- The members of a record, or those that a sequence of pairs makes. -/
def Value.asMembers (v : Value) : Except Error Members :=
  match v with
  | .record ms => .ok ms
  | v => do
    let vs ← v.elements
    let pairs ← vs.mapM Value.asMember
    pure (Members.ofPairs pairs)

namespace Session

/-- The stored record of a session. -/
def encode (s : Session) : Value :=
  .record [("current_step_id", s.current), ("field_path", .list s.path),
    ("values", .record s.answers), ("history", .list s.history), ("completed", s.completed),
    ("transitions", .list (s.transitions.map Transition.encode))]

/-- Reads the record of a session. -/
def decode (v : Value) : Except Error Session := do
  let current ← v.need "current_step_id"
  let path ← (← v.get "field_path" (.list [])).elements
  let answers ← (← v.get "values" (.record [])).asMembers
  let history ← (← v.get "history" (.list [])).elements
  let completed ← v.get "completed" (.bool false)
  let transitions ← (← (← v.get "transitions" (.list [])).elements).mapM Transition.decode
  pure { current, path, answers, history, completed := .bool completed.truthy, transitions }

end Session

end BranchForm
