import BranchForm.Form.Basic
import BranchForm.Session.State
import BranchForm.Number.Binary64

/-!
# What a session shows

A session points into a form: to a step, and perhaps to nested fields of it. The ids of fields, and
with them the entries of a session's path, are meant to be texts, as all ids of forms that are read
are. Values of another kind can be looked up all the same; which of them count as one id, and that
none is refused, is a convention here and nothing to rely on.

* `Form.begin` starts a session on the first step or resumes one whose step the form has;
* `Session.step` is the current step and `Session.fields` are the fields on screen;
* `Session.missing` are the required fields of the step without an answer;
* `Session.snapshot` puts together what a respondent sees.
-/

namespace BranchForm

/-- The step on which sessions start: the entry step, or else the first one of the document. -/
def Form.firstStep? (form : Form) : Option Step :=
  match form.entry? with
  | some s => some s
  | none => form.steps.head?

/-- Starts a session, or resumes one. A form without steps has none, and a session whose step the
form does not have is refused. -/
def Form.begin (form : Form) (saved : Option Session) : Except Error Session :=
  match form.firstStep? with
  | none => .error (.noSteps form.name)
  | some first => match saved with
    | none => .ok { current := .text first.id }
    | some s => match form.stepOf? s.current with
      | some _ => .ok s
      | none => .error (.unknownStep form.name s.current)

namespace Session

/-- The current step. -/
def step (form : Form) (s : Session) : Except Error Step :=
  match form.stepOf? s.current with
  | some step => .ok step
  | none => .error (.unknownStep form.name s.current)

/-- The answer stored for a field, the empty value if there is none. The id is meant to be a text;
under a list or a record, which cannot name a member, there is none here. -/
def answer (s : Session) (fieldId : Value) : Value := Members.getOrNull s.answers fieldId

/-- The fields on screen when the current step is `step`: the sub-fields on the way, or else the
fields of the step. -/
def fieldsOn (s : Session) (step : Step) : List Field :=
  match step.nested? s.path with
  | some f => if f.subFields.isEmpty then step.fields else f.subFields
  | none => step.fields

/-- The fields on screen. -/
def fields (form : Form) (s : Session) : Except Error (List Field) := do
  let step ← s.step form
  pure (s.fieldsOn step)

/-- Whether the current step is the first of the document. -/
def isFirst (form : Form) (s : Session) : Bool := form.indexOf? s.current == some 0

/-- Whether a step ends the form when it is the current one: it is marked so, or is the last of the
document. -/
def endsWith (form : Form) (s : Session) (step : Step) : Bool :=
  step.isLast || (form.indexOf? s.current).any fun i => i + 1 == form.steps.length

/-- How far the current step lies in the document: its number and the number of steps. -/
def progress (form : Form) (s : Session) : Nat × Nat :=
  (match form.indexOf? s.current with
    | some i => i + 1
    | none => 0, form.steps.length)

/-- Whether a value is an answer at all. -/
def isAnswer (v : Value) : Bool := decide (v ≠ .null ∧ v ≠ .text "" ∧ v ≠ .list [])

mutual

/-- The ids of the required fields without an answer, in a field and inside it. -/
def missingIn (answers : Members) : Field → List Value
  | .mk q fs =>
    (if q.required && !isAnswer (Members.getOrNull answers q.id) then [q.id] else []) ++
      missingAmong answers fs

/-- The ids of the required fields without an answer, in several fields and inside them. -/
def missingAmong (answers : Members) : List Field → List Value
  | [] => []
  | f :: fs => missingIn answers f ++ missingAmong answers fs

end

/-- The ids of the required fields of the current step without an answer. -/
def missing (form : Form) (s : Session) : Except Error (List Value) := do
  let step ← s.step form
  pure (missingAmong s.answers step.fields)

end Session

/-- What a respondent sees. -/
structure Snapshot where
  /-- The session. -/
  session : Session
  /-- The ids of the fields on screen. -/
  fieldIds : List Value
  /-- Whether the step is the first one. -/
  isFirst : Bool
  /-- Whether the step ends the form. -/
  isLast : Bool
  /-- The number of the step and the number of steps. -/
  progress : Nat × Nat
  /-- The required fields without an answer. -/
  missing : List Value
  deriving Repr

/-- What a respondent sees; there is nothing to see on a step the form does not have. -/
def Session.snapshot (form : Form) (s : Session) : Except Error Snapshot := do
  let step ← s.step form
  pure {
    session := s
    fieldIds := (s.fieldsOn step).map Field.id
    isFirst := s.isFirst form
    isLast := s.endsWith form step
    progress := s.progress form
    missing := Session.missingAmong s.answers step.fields }

/-- The share of the steps up to the current one, with six decimal places. -/
def Snapshot.progressText (snapshot : Snapshot) : String :=
  (Binary64.ofRatio false snapshot.progress.1 snapshot.progress.2).fixed 6

/-- The record of what a respondent sees. -/
def Snapshot.encode (snapshot : Snapshot) : Members :=
  let s := snapshot.session
  [("step", s.current), ("path", .list s.path), ("answers", .record s.answers),
    ("history", .list s.history), ("completed", s.completed),
    ("transitions", .int s.transitions.length),
    ("last_transition", (s.transitions.getLast?.map Transition.encode).getD .null),
    ("fields", Value.list snapshot.fieldIds), ("is_first", .bool snapshot.isFirst),
    ("is_last", .bool snapshot.isLast), ("progress", .text snapshot.progressText),
    ("missing", Value.list snapshot.missing)]

end BranchForm
