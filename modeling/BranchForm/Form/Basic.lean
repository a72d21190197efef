import BranchForm.Form.Reserved
import BranchForm.Value.Access

/-!
# Forms as step graphs

A form is shown step by step. A step asks questions in fields, and a choice of a field may lead to
another step, so the steps of a form are the nodes of a graph.

* `FieldKind` lists the types of fields;
* `Choice`, `Field`, `Condition`, `Step` and `Form` are the parts of a form, from the inside out.
  The ids of steps are texts; the ids of fields and choices are values, as authors may set them, and
  so is what a form only shows or hands on;
* `Choice.target` is the step a choice leads to, and `Condition.holds` tells whether the answers so
  far make a step branch;
* `Form.step?`, `Form.stepIndex?`, `Form.entry?` and `Form.last?` find steps; of equal ids the first
  counts, but for `Form.latestStep?`, which takes the last.
-/

namespace BranchForm

/-- The type of a field. -/
inductive FieldKind where
  /-- A choice between images. -/
  | imageSelect
  /-- A choice of one. -/
  | radio
  /-- A choice of several. -/
  | checkbox
  /-- A choice of several, in a group. -/
  | checkboxes
  /-- A choice of one from a list that unfolds. -/
  | dropdown
  /-- A line of text. -/
  | text
  /-- A mail address. -/
  | email
  /-- A telephone number. -/
  | phone
  /-- A number. -/
  | number
  /-- Several lines of text. -/
  | textArea
  /-- A file. -/
  | fileUpload
  /-- An image. -/
  | imageUpload
  deriving DecidableEq, Repr, Inhabited

namespace FieldKind

/-- All types, in the order of their listing. -/
def all : List FieldKind :=
  [.imageSelect, .radio, .checkbox, .checkboxes, .dropdown, .text, .email, .phone, .number,
    .textArea, .fileUpload, .imageUpload]

/-- The stored name of a type. -/
def name : FieldKind → String
  | .imageSelect => "image_select"
  | .radio => "radio"
  | .checkbox => "checkbox"
  | .checkboxes => "checkboxes"
  | .dropdown => "dropdown"
  | .text => "text"
  | .email => "email"
  | .phone => "phone"
  | .number => "number"
  | .textArea => "text_area"
  | .fileUpload => "file_upload"
  | .imageUpload => "image_upload"

/-- The type of a stored name. -/
def ofName? (name : String) : Option FieldKind := all.find? fun kind => kind.name == name

/-- The type of a value, which must be a stored name. -/
def ofValue? : Value → Option FieldKind
  | .text s => ofName? s
  | _ => none

/-- Whether the answer is picked from the choices of the field. -/
def isChoice : FieldKind → Bool
  | .imageSelect | .radio | .checkbox | .checkboxes | .dropdown => true
  | _ => false

/-- Whether several choices may be picked together. -/
def isMultiple : FieldKind → Bool
  | .checkbox | .checkboxes => true
  | _ => false

end FieldKind

/-- One choice of a field. -/
structure Choice where
  /-- The id of the choice, which is that of the node it was compiled from. -/
  id : Value
  /-- The text shown. -/
  label : Value
  /-- The answer stored when the choice is picked. -/
  value : Value
  /-- The image shown, an empty text if there is none. -/
  image : Value := .text ""
  /-- The step shown next, if one is named. -/
  nextField : Value := .null
  /-- The step shown next where a form made by hand names it; it goes before the other. -/
  nextStep : Value := .null
  deriving DecidableEq, Repr, Inhabited

/-- The step a choice leads to, the empty value if it names none. -/
def Choice.target (c : Choice) : Value := c.nextStep.orElse c.nextField

/-- What a field asks, its sub-fields left aside. -/
structure Question where
  /-- Names the field; answers are stored under it. It is meant to be a text, and is one in every form
  that is read. -/
  id : Value
  /-- The type of the field. -/
  kind : FieldKind
  /-- The text shown. -/
  label : Value
  /-- Whether an answer is asked for. -/
  required : Bool := true
  /-- The choices of the field. -/
  choices : List Choice := []
  /-- The image shown, if there is one. -/
  image : Value := .null
  deriving DecidableEq, Repr, Inhabited

/-- A field with the fields inside it. -/
inductive Field where
  /-- A question above its sub-fields. -/
  | mk (question : Question) (subFields : List Field)
  deriving Repr, Inhabited

namespace Field

/-- What the field asks. -/
def question : Field → Question
  | .mk q _ => q

/-- The fields inside the field. -/
def subFields : Field → List Field
  | .mk _ fs => fs

/-- The id of the field. -/
def id (f : Field) : Value := f.question.id

/-- The choices of the field. -/
def choices (f : Field) : List Choice := f.question.choices

/-- Whether a value is the id of the field. -/
def hasName (f : Field) (name : Value) : Bool := f.id.agrees name

/-- The first choice that stores an answer. -/
def choice? (f : Field) (answer : Value) : Option Choice :=
  f.choices.find? fun c => c.value.agrees answer

/-- The first sub-field with an id. -/
def subField? (f : Field) (fieldId : Value) : Option Field :=
  f.subFields.find? (·.hasName fieldId)

mutual

/-- Decides whether two fields are the same. -/
def decEq : (f g : Field) → Decidable (f = g)
  | .mk p fs, .mk q gs => match decEqAll fs gs with
    | isTrue h =>
      if hq : p = q then isTrue (by rw [hq, h]) else isFalse (by simp [hq])
    | isFalse h => isFalse (by simp [h])

/-- Decides whether two sequences of fields are the same. -/
def decEqAll : (fs gs : List Field) → Decidable (fs = gs)
  | [], [] => isTrue rfl
  | [], _ :: _ => isFalse nofun
  | _ :: _, [] => isFalse nofun
  | f :: fs, g :: gs => match decEq f g, decEqAll fs gs with
    | isTrue h, isTrue hs => isTrue (by rw [h, hs])
    | isFalse h, _ => isFalse (by simp [h])
    | _, isFalse hs => isFalse (by simp [hs])

end

instance : DecidableEq Field := decEq

mutual

/-- The number of fields of a field, itself and those inside it. -/
def size : Field → Nat
  | .mk _ fs => 1 + sizeAll fs

/-- The number of fields of several fields. -/
def sizeAll : List Field → Nat
  | [] => 0
  | f :: fs => size f + sizeAll fs

end

theorem sizeAll_append (fs gs : List Field) : sizeAll (fs ++ gs) = sizeAll fs + sizeAll gs := by
  induction fs with
  | nil => simp [sizeAll]
  | cons f fs ih => simp [sizeAll, ih, Nat.add_assoc]

theorem sizeAll_reverse (fs : List Field) : sizeAll fs.reverse = sizeAll fs := by
  induction fs with
  | nil => rfl
  | cons f fs ih => simp [sizeAll_append, sizeAll, ih, Nat.add_comm]

end Field

/-- A branch that answers decide: to go to a step when a field has an answer. -/
structure Condition where
  /-- The field asked about. -/
  fieldId : String
  /-- The answer that decides. -/
  value : Value
  /-- The step to go to. -/
  nextStep : String
  deriving DecidableEq, Repr, Inhabited

/-- Whether the answers given make a condition hold: the answer agrees with its value, or is a list
that has it as an element. -/
def Condition.holds (c : Condition) (answers : Members) : Bool :=
  match Members.getOrNull answers c.fieldId with
  | .list given => c.value.within given
  | given => given.agrees c.value

/-- Whether answers of unchecked kind make a condition hold. -/
def Condition.holdsFor (c : Condition) (answers : Value) : Except Error Bool :=
  match answers with
  | .record ms => .ok (c.holds ms)
  | _ => Value.fail .missingOperation

/-- One screen of a form. -/
structure Step where
  /-- Names the step. -/
  id : String
  /-- The title shown. -/
  title : Value
  /-- The fields of the step. -/
  fields : List Field := []
  /-- The description shown, if there is one. -/
  description : Value := .null
  /-- Whether the form ends with this step. -/
  isLast : Bool := false
  /-- The branches that answers decide, tried in order. -/
  conditions : List Condition := []
  deriving DecidableEq, Repr, Inhabited

namespace Step

/-- The first field with an id. -/
def field? (s : Step) (fieldId : Value) : Option Field := s.fields.find? (·.hasName fieldId)

/-- The field reached along a path through sub-fields. -/
def nested? (s : Step) : List Value → Option Field
  | [] => none
  | name :: path => path.foldl (fun f next => f.bind (·.subField? next)) (s.field? name)

/-- The field reached along a path of unchecked kind: a text is the path of its characters. -/
def nestedAt (s : Step) (path : Value) : Except Error (Option Field) :=
  if path.truthy then
    match path with
    | .list names => .ok (s.nested? names)
    | .text names => .ok (s.nested? (Value.characters names))
    | .record _ => Value.fail .missingKey
    | _ => Value.fail .wrongKind
  else .ok none

/-- The choices of the first field, by which a step stands for a node of an option tree. -/
def leadChoices (s : Step) : List Choice :=
  match s.fields with
  | [] => []
  | f :: _ => f.choices

end Step

/-- What a form says about itself apart from its steps. -/
structure FormSettings where
  /-- The message shown at the end. -/
  successMessage : Value
  /-- The text of the button that submits, if it is set. -/
  submitButtonText : Value := .null
  /-- Where to go after submitting, if it is set. -/
  redirectUrl : Value := .null
  /-- Whether progress is shown, if it is set. -/
  showProgressBar : Value := .null
  /-- Whether a respondent may submit several times, if it is set. -/
  allowMultipleSubmissions : Value := .null
  deriving DecidableEq, Repr, Inhabited

/-- A form: its name, description, steps in document order, and settings. -/
structure Form where
  /-- The name. -/
  name : Value
  /-- The description. -/
  description : Value := .text ""
  /-- The steps in document order. -/
  steps : List Step := []
  /-- The settings. -/
  settings : FormSettings := { successMessage := .text "" }
  deriving DecidableEq, Repr, Inhabited

namespace Form

/-- The ids of the steps in document order. -/
def stepIds (form : Form) : List String := form.steps.map (·.id)

/-- The first step with an id. -/
def step? (form : Form) (stepId : String) : Option Step :=
  form.steps.find? fun s => s.id == stepId

/-- The step that a value names: only a text names one. -/
def stepOf? (form : Form) : Value → Option Step
  | .text stepId => form.step? stepId
  | _ => none

/-- The last step with an id. -/
def latestStep? (form : Form) (stepId : String) : Option Step :=
  form.steps.reverse.find? fun s => s.id == stepId

/-- The place of the first step with an id in document order. -/
def stepIndex? (form : Form) (stepId : String) : Option Nat :=
  form.steps.findIdx? fun s => s.id == stepId

/-- The place of the step that a value names. -/
def indexOf? (form : Form) : Value → Option Nat
  | .text stepId => form.stepIndex? stepId
  | _ => none

/-- The step with the id of the entry step. -/
def entry? (form : Form) : Option Step := form.step? entryStepId

/-- The first step marked as the last one, or else the step with the id of the terminal step. -/
def last? (form : Form) : Option Step :=
  match form.steps.find? (·.isLast) with
  | some s => some s
  | none => form.step? finalStepId

end Form

end BranchForm
