import BranchForm.Form.Basic
import BranchForm.Value.Access
import BranchForm.Json.Reader
import BranchForm.Json.Writer
import BranchForm.Yaml.Writer

/-!
# Stored forms

A form is stored as nested records. Reading one checks little: the ids and types of the parts must
be there, ids become texts and marks truth values, and the rest is kept as it came.

* `Form.encode` writes the record of a form and `Form.decode` reads one, likewise for the parts of a
  form; members whose value is absent are left out;
* `Form.toJson` and `Form.ofJson` do the same for the JSON text of the record, and `Form.toYaml`
  writes its YAML text.
-/

namespace BranchForm

/-- The member of an optional value: left out when the value is absent. -/
def optional (name : String) (v : Value) : Members := if v = .null then [] else [(name, v)]

namespace Choice

/-- The record of a choice. -/
def encode (c : Choice) : Value :=
  .record (([("optionId", c.id), ("label", c.label), ("value", c.value),
      ("imageUrl", c.image)] : Members) ++
    optional "nextFieldId" c.nextField ++ optional "nextStepId" c.nextStep)

/-- Reads a choice; an empty target counts as none. -/
def decode (v : Value) : Except Error Choice := do
  let id ← (← v.require "optionId" "option").asLabel
  let label ← v.get "label" (.text "")
  let value ← v.get "value" (.text "")
  let image ← v.getOrNull "imageUrl"
  let nextField ← v.getOrNull "nextFieldId"
  let nextStep ← v.getOrNull "nextStepId"
  pure {
    id := .text id, label, value, image := image.orElse (.text "")
    nextField := nextField.orElse .null, nextStep := nextStep.orElse .null }

end Choice

namespace Question

/-- The members of a field in front of its sub-fields. -/
def encode (q : Question) : Members :=
  ([("fieldId", q.id), ("type", .text q.kind.name), ("label", q.label),
    ("required", .bool q.required)] : Members) ++
  (if q.choices ≠ [] ∨ q.kind.isChoice then
      ([("options", .list (q.choices.map Choice.encode))] : Members)
    else [])

/-- Reads what a field asks. -/
def decode (v : Value) : Except Error Question := do
  let type ← v.require "type" "field"
  match FieldKind.ofValue? type with
  | none => do
    let _ ← type.asLabel
    let id ← v.getOrNull "fieldId"
    .error (.unknownFieldType id type)
  | some kind => do
    let id ← (← v.require "fieldId" "field").asLabel
    let label ← v.get "label" (.text "")
    let required ← v.get "required" (.bool true)
    let options ← v.getOrNull "options"
    let choices ← (← options.elementsOrNone).mapM Choice.decode
    let image ← v.getOrNull "imageUrl"
    pure {
      id := .text id, kind, label, required := required.truthy, choices, image }

end Question

namespace Field

mutual

/-- The record of a field. -/
def encode : Field → Value
  | .mk q fs =>
    .record (q.encode ++ (match encodeAll fs with
      | [] => []
      | vs => [("subFields", .list vs)]) ++ optional "imageUrl" q.image)

/-- The records of several fields. -/
def encodeAll : List Field → List Value
  | [] => []
  | f :: fs => encode f :: encodeAll fs

end

mutual

/-- Reads a field. -/
def decode : Value → Except Error Field
  | .record ms => do
    let question ← Question.decode (.record ms)
    let subFields ← decodeSubFields ms
    pure (.mk question subFields)
  | _ => Value.fail .wrongKind

/-- Reads the sub-fields among the members of a record. -/
def decodeSubFields : List (Value × Value) → Except Error (List Field)
  | [] => .ok []
  | (name, v) :: ms => if name = .text "subFields" then decodeElements v else decodeSubFields ms

/-- Reads the fields a value is made of, none from a value that does not count as present. Neither a
character nor a name is a field. -/
def decodeElements : Value → Except Error (List Field)
  | .list vs => decodeAll vs
  | v => if v.truthy then Value.fail .wrongKind else .ok []

/-- Reads several fields. -/
def decodeAll : List Value → Except Error (List Field)
  | [] => .ok []
  | v :: vs => do
    let f ← decode v
    let fs ← decodeAll vs
    pure (f :: fs)

end

end Field

namespace Condition

/-- The record of a condition. -/
def encode (c : Condition) : Value :=
  .record [("fieldId", .text c.fieldId), ("value", c.value), ("nextStepId", .text c.nextStep)]

/-- Reads a condition. -/
def decode (v : Value) : Except Error Condition := do
  let fieldId ← (← v.require "fieldId" "condition").asLabel
  let value ← v.get "value" (.text "")
  let nextStep ← (← v.require "nextStepId" "condition").asLabel
  pure { fieldId, value, nextStep }

end Condition

namespace Step

/-- The record of a step. -/
def encode (s : Step) : Value :=
  .record (([("stepId", .text s.id), ("title", s.title),
      ("fields", .list (s.fields.map Field.encode))] : Members) ++
    optional "description" s.description ++
    (if s.isLast then ([("isLastStep", .bool true)] : Members) else []) ++
    (if s.conditions = [] then []
      else ([("nextStepCondition", .list (s.conditions.map Condition.encode))] : Members)))

/-- Reads a step. -/
def decode (v : Value) : Except Error Step := do
  let id ← (← v.require "stepId" "step").asLabel
  let title ← v.get "title" (.text "")
  let fields ← Field.decodeElements (← v.getOrNull "fields")
  let description ← v.getOrNull "description"
  let isLast ← v.get "isLastStep" (.bool false)
  let conditions ← (← (← v.getOrNull "nextStepCondition").elementsOrNone).mapM Condition.decode
  pure { id, title, fields, description, isLast := isLast.truthy, conditions }

end Step

namespace FormSettings

/-- The record of a form's settings. -/
def encode (s : FormSettings) : Value :=
  .record (([("successMessage", s.successMessage)] : Members) ++
    optional "submitButtonText" s.submitButtonText ++ optional "redirectUrl" s.redirectUrl ++
    optional "showProgressBar" s.showProgressBar ++
    optional "allowMultipleSubmissions" s.allowMultipleSubmissions)

/-- Reads a form's settings; an empty value stands for an empty record. -/
def decode (v : Value) : Except Error FormSettings := do
  let v := v.orElse (.record [])
  let successMessage ← v.get "successMessage" (.text "")
  let submitButtonText ← v.getOrNull "submitButtonText"
  let redirectUrl ← v.getOrNull "redirectUrl"
  let showProgressBar ← v.getOrNull "showProgressBar"
  let allowMultipleSubmissions ← v.getOrNull "allowMultipleSubmissions"
  pure { successMessage, submitButtonText, redirectUrl, showProgressBar, allowMultipleSubmissions }

end FormSettings

namespace Form

/-- The members of the record of a form. -/
def members (form : Form) : Members :=
  [("name", form.name), ("description", form.description),
    ("steps", .list (form.steps.map Step.encode)), ("settings", form.settings.encode)]

/-- The record of a form. -/
def encode (form : Form) : Value := .record form.members

/-- Reads a form. -/
def decode (v : Value) : Except Error Form :=
  match v with
  | .record ms => do
    let steps ← (← (Members.getOrNull ms "steps").elementsOrNone).mapM Step.decode
    let settings ← FormSettings.decode (Members.getOrNull ms "settings")
    pure {
      name := Members.getD ms "name" (.text "")
      description := Members.getD ms "description" (.text ""), steps, settings }
  | v => .error (.formNotRecord v.kindName)

/-- The JSON text of a form. -/
def toJson (form : Form) (layout : Json.Layout) : String := Json.write layout form.encode

/-- The YAML text of a form. -/
def toYaml (form : Form) : String := Yaml.write form.members

/-- Reads a form from JSON text. -/
def ofJson (text : String) : Except Error Form :=
  match Json.read text with
  | .ok v => decode v
  | .error (.syntaxError reason) => .error (.formNotJson reason)
  | .error .longNumber => Value.fail .badValue

end Form

end BranchForm
