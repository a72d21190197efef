import BranchForm.Session.View

/-!
# Moving through a form

A respondent picks choices, gives answers, enters nested fields and goes on, back or to a step. A
choice follows the conditions of the step first and then its own target. Going on shifts through the
fields that have sub-fields before it leaves the step, and follows the answers already given; going
back retraces the visits.

* `Outcome` is what a request came to, `Reply` adds the session after it and the warnings given.
  What was changed before an error stays changed;
* `Form.resolve` finds the step of a target, the reserved id standing for the last step;
* `Session.select`, `Session.set`, `Session.enter`, `Session.advance`, `Session.retreat`,
  `Session.jump` and `Session.reset` are the requests.
-/

namespace BranchForm

/-- What a request of a respondent came to. -/
inductive Outcome where
  /-- Another step, or other fields of the step, are shown. -/
  | moved
  /-- The same is shown as before. -/
  | stayed
  /-- The form is submitted. -/
  | submit
  deriving DecidableEq, Repr, Inhabited

/-- The stored name of an outcome. -/
def Outcome.name : Outcome → String
  | .moved => "moved"
  | .stayed => "stayed"
  | .submit => "submit"

/-- The answer to a request. -/
structure Reply where
  /-- The session after the request. -/
  session : Session
  /-- What the request came to, or why it failed. -/
  outcome : Except Error Outcome
  /-- The warnings given. -/
  warnings : List Warning := []
  deriving Repr

namespace Form

/-- The step that a target leads to from a step. -/
def resolve (form : Form) (source target : Value) : Except Unresolved Value :=
  let target := if target = .text finalStepId then
      match form.last? with
      | some s => .text s.id
      | none => target
    else target
  match form.stepOf? target with
  | some _ => .ok target
  | none => .error (.unknownTarget source target)

/-- The first condition of a step that the answers make hold. -/
def firedCondition? (step : Step) (answers : Members) : Option Condition :=
  step.conditions.find? fun c => c.holds answers

/-- Where an answer to a field leads from a step: along the first condition that holds, else along
the choice that was picked, if there is one. -/
def branchTarget (form : Form) (s : Session) (step : Step) (fieldId : Value)
    (choice : Option Choice) : Except Unresolved (Option Value) :=
  match firedCondition? step s.answers with
  | some c => (form.resolve s.current (.text c.nextStep)).map some
  | none => match choice with
    | none => .ok none
    | some c =>
      if c.target = .null then .error (.noTarget s.current fieldId)
      else (form.resolve s.current c.target).map some

/-- The first target among choices picked before: that of the first text among the answers whose
choice names one. -/
def pickedTarget? (f : Field) : List Value → Option Value
  | [] => none
  | .text answer :: rest => match f.choice? (.text answer) with
    | some c => if c.target = .null then pickedTarget? f rest else some c.target
    | none => pickedTarget? f rest
  | _ :: rest => pickedTarget? f rest

/-- The answers stored for a field, one by one. -/
def answersTo (answers : Members) (f : Field) : List Value :=
  match Members.getOrNull answers f.id with
  | .list given => given
  | given => [given]

/-- The target that the answers on a step imply: that of the first condition that holds, else that
of the first field with a choice picked before that names one. -/
def answeredTarget (form : Form) (s : Session) (step : Step) : Except Unresolved (Option Value) :=
  match firedCondition? step s.answers with
  | some c => (form.resolve s.current (.text c.nextStep)).map some
  | none => match step.fields.findSome? fun f => pickedTarget? f (answersTo s.answers f) with
    | some target => (form.resolve s.current target).map some
    | none => .ok none

end Form

namespace Session

/-- The session after a move to a step. Moving forward puts the step left behind on the history. -/
def moveTo (s : Session) (target : Value) (trigger : Trigger) (fieldId value : Value)
    (keepHistory : Bool) : Session :=
  { s with
    current := target
    path := []
    history := if keepHistory then s.history ++ [s.current] else s.history
    transitions := s.transitions ++
      [{ source := s.current, target, trigger := .text trigger.name, fieldId, value }] }

/-- The first field with an id on a stack of fields, a field's sub-fields being put on top of the
stack, the last one uppermost. -/
def searchFields (fieldId : Value) : List Field → Option Field
  | [] => none
  | f :: rest =>
    if f.hasName fieldId then some f
    else searchFields fieldId (f.subFields.reverse ++ rest)
termination_by stack => Field.sizeAll stack
decreasing_by
  cases f
  simp only [Field.sizeAll_append, Field.sizeAll_reverse, Field.subFields, Field.sizeAll,
    Field.size]
  omega

/-- The field of a step with an id, at any depth; the last fields are searched first. The id is meant
to be a text. -/
def findField (step : Step) (fieldId : Value) : Option Field :=
  searchFields fieldId step.fields.reverse

/-- Follows a target that an answer leads to, or stays. -/
def follow (s : Session) (target : Except Unresolved (Option Value)) (trigger : Trigger)
    (fieldId value : Value) : Reply :=
  match target with
  | .error cause => { session := s, outcome := .ok .stayed, warnings := [.staying cause] }
  | .ok none => { session := s, outcome := .ok .stayed }
  | .ok (some target) =>
    { session := s.moveTo target trigger fieldId value true, outcome := .ok .moved }

/-- The answer to a field of several choices once a value has been switched, and whether it is on.
-/
def switch (stored value : Value) : List Value × Bool :=
  let chosen := match stored with
    | .list vs => vs
    | _ => []
  if value.within chosen then (value.removeFrom chosen, false) else (chosen ++ [value], true)

/-- The session with an answer to a field. -/
def withAnswer (s : Session) (fieldId value : Value) : Session :=
  { s with answers := Members.put s.answers fieldId value }

/-- Picks a choice of a field and follows it. In a field of several choices the choice is switched;
one that was switched off is not followed. -/
def select (form : Form) (s : Session) (fieldId value : Value) : Reply :=
  match s.step form with
  | .error e => { session := s, outcome := .error e }
  | .ok step => match findField step fieldId with
    | none =>
      { session := s, outcome := .ok .stayed, warnings := [.noSuchField s.current fieldId] }
    | some f =>
      let (stored, on) :=
        if f.question.kind.isMultiple then
          let (chosen, on) := switch (s.answer fieldId) value
          (Value.list chosen, on)
        else (value, true)
      let s := s.withAnswer fieldId stored
      let picked := if on then f.choice? value else none
      s.follow (form.branchTarget s step fieldId picked) .select fieldId value

/-- Gives an answer under a name, mostly that of a field; only the conditions of the step are
followed. -/
def set (form : Form) (s : Session) (fieldId value : Value) : Reply :=
  if fieldId.isKey then
    let s := s.withAnswer fieldId value
    match s.step form with
    | .error e => { session := s, outcome := .error e }
    | .ok step => s.follow (form.branchTarget s step fieldId none) .value fieldId value
  else { session := s, outcome := Value.fail .wrongKind }

/-- Enters the sub-fields of a field on screen. -/
def enter (form : Form) (s : Session) (fieldId : Value) : Reply :=
  match s.fields form with
  | .error e => { session := s, outcome := .error e }
  | .ok fs => match fs.find? (·.hasName fieldId) with
    | some f =>
      if f.subFields.isEmpty then { session := s, outcome := .ok .stayed }
      else { session := { s with path := s.path ++ [fieldId] }, outcome := .ok .moved }
    | none => { session := s, outcome := .ok .stayed }

/-- The fields among which the entered field stands. -/
def siblings (step : Step) (path : List Value) : List Field :=
  match path.dropLast with
  | [] => step.fields
  | above => match step.nested? above with
    | some f => f.subFields
    | none => []

/-- The ids of the fields that can be entered. -/
def enterable (fs : List Field) : List Value :=
  (fs.filter fun f => !f.subFields.isEmpty).map Field.id

/-- The entry of a list before or after the first occurrence of a value. The entries are ids, which
are meant to be texts: of other values only the very same is an occurrence, so `1` is none of `1.0`.
-/
def neighbour? (ids : List Value) (v : Value) (forward : Bool) : Option Value :=
  match ids.findIdx? fun w => decide (w = v) with
  | none => none
  | some i => if forward then ids[i + 1]? else if i = 0 then none else ids[i - 1]?

/-- The path shifted to the next or the previous field that can be entered. Without such a field the
path is left. -/
def shift (form : Form) (s : Session) (forward : Bool) : Except Error (Session × Bool) :=
  match s.path.getLast? with
  | none => .ok (s, false)
  | some last => do
    let step ← s.step form
    match neighbour? (enterable (siblings step s.path)) last forward with
    | some next => pure ({ s with path := s.path.dropLast ++ [next] }, true)
    | none => pure ({ s with path := [] }, false)

/-- The id of the step at a place of the document. -/
def stepIdAt (form : Form) (i : Nat) : Value :=
  match form.steps[i]? with
  | some s => .text s.id
  | none => .null

/-- Goes on from a step: submits on the last one, else follows the answers given, else the order of
the document. -/
def leave (form : Form) (s : Session) (step : Step) : Reply :=
  if s.endsWith form step then
    { session := { s with completed := .bool true }, outcome := .ok .submit }
  else
    let onward : Value := stepIdAt form (((form.indexOf? s.current).map (· + 1)).getD 0)
    match form.answeredTarget s step with
    | .ok (some target) =>
      { session := s.moveTo target .next .null .null true, outcome := .ok .moved }
    | .ok none => { session := s.moveTo onward .next .null .null true, outcome := .ok .moved }
    | .error cause =>
      { session := s.moveTo onward .next .null .null true, outcome := .ok .moved
        warnings := [.ignoringAnswer cause] }

/-- Goes on: to the next nested fields, or from the step. -/
def advance (form : Form) (s : Session) : Reply :=
  match s.shift form true with
  | .error e => { session := s, outcome := .error e }
  | .ok (s, true) => { session := s, outcome := .ok .moved }
  | .ok (s, false) => match s.step form with
    | .error e => { session := s, outcome := .error e }
    | .ok step => s.leave form step

/-- Goes back to the step visited before, or to the one before in the document. -/
def retrace (form : Form) (s : Session) : Reply :=
  match form.indexOf? s.current with
  | none | some 0 => { session := { s with path := [] }, outcome := .ok .stayed }
  | some (i + 1) =>
    let back := match s.history.getLast? with
      | some previous =>
        { s with history := s.history.dropLast }.moveTo previous .back .null .null false
      | none => s.moveTo (stepIdAt form i) .back .null .null false
    { session := back, outcome := .ok .moved }

/-- Goes back: to the previous nested fields, or to the step before. -/
def retreat (form : Form) (s : Session) : Reply :=
  match s.shift form false with
  | .error e => { session := s, outcome := .error e }
  | .ok (s, true) => { session := s, outcome := .ok .moved }
  | .ok (s, false) => s.retrace form

/-- Goes to a step by its id. -/
def jump (form : Form) (s : Session) (stepId : Value) : Reply :=
  match form.stepOf? stepId with
  | none => { session := s, outcome := .ok .stayed, warnings := [.noSuchStep stepId] }
  | some _ =>
    if s.current = stepId then { session := s, outcome := .ok .stayed }
    else { session := s.moveTo stepId .jump .null .null true, outcome := .ok .moved }

/-- Starts again: answers and history are forgotten, the log of moves is kept. -/
def reset (form : Form) (s : Session) : Session :=
  let first : Value := match form.firstStep? with
    | some step => .text step.id
    | none => .null
  { current := first
    transitions := s.transitions ++
      [{ source := s.current, target := first, trigger := .text Trigger.restart.name }] }

end Session

end BranchForm
