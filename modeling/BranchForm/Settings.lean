import BranchForm.Form.Codec
import BranchForm.Text.Template

/-!
# Settings of the compiler

What a compiled form says beyond its tree is set here: titles, the field of the entry step, the
terminal step and its fields, and the messages. A text made from a label is a template.

* `CompileSettings` holds the settings, with the stock texts as defaults;
* `CompileSettings.decode` reads a record of settings, absent ones keeping their defaults;
* `fillLabel` fills a template from a label, both of which must be texts.
-/

namespace BranchForm

/-- The fields of the terminal step unless others are set: name, mail address, telephone number and
an optional message. -/
def stockFinalFields : List Field :=
  [.mk { id := .text "name", kind := .text, label := .text "Your Name" } [],
    .mk { id := .text "email", kind := .email, label := .text "Email Address" } [],
    .mk { id := .text "phone", kind := .text, label := .text "Phone Number" } [],
    .mk { id := .text "message", kind := .text, label := .text "Additional Message"
          required := false } []]

/-- The settings of the compiler. -/
structure CompileSettings where
  /-- The id of the entry step's field. -/
  entryFieldId : Value := .text "main_selection"
  /-- The label of the entry step's field. -/
  entryFieldLabel : Value := .text "Choose an option"
  /-- The template of the title of a branch step. -/
  branchTitle : Value := .text "Choose \x7blabel\x7d Type"
  /-- The template of the label of a branch step's field. -/
  branchFieldLabel : Value := .text "Select \x7blabel\x7d option"
  /-- The title of the terminal step. -/
  finalTitle : Value := .text "Your Details"
  /-- The fields of the terminal step. -/
  finalFields : List Field := stockFinalFields
  /-- The template of the form's description. -/
  description : Value := .text "Find the best \x7blabel_lower\x7d for you"
  /-- The template of the message shown at the end. -/
  successMessage : Value := .text "Thanks! We'll recommend the best \x7blabel_lower\x7d for you."
  /-- The name of a form without one. -/
  untitledName : Value := .text "Untitled Form"
  /-- The description of a form without steps. -/
  emptyDescription : Value := .text "Form created with dynamic form builder"
  /-- The message of a form without steps. -/
  emptySuccessMessage : Value := .text "Thank you for your submission!"
  deriving DecidableEq, Repr, Inhabited

namespace CompileSettings

/-- The record of the settings. -/
def encode (s : CompileSettings) : Value :=
  .record [("entry_field_id", s.entryFieldId), ("entry_field_label", s.entryFieldLabel),
    ("branch_title_template", s.branchTitle), ("branch_field_label_template", s.branchFieldLabel),
    ("final_step_title", s.finalTitle), ("final_fields", .list (s.finalFields.map Field.encode)),
    ("description_template", s.description), ("success_message_template", s.successMessage),
    ("untitled_name", s.untitledName), ("empty_description", s.emptyDescription),
    ("empty_success_message", s.emptySuccessMessage)]

/-- The names of the settings. -/
def settingNames : List String :=
  ["entry_field_id", "entry_field_label", "branch_title_template", "branch_field_label_template",
    "final_step_title", "final_fields", "description_template", "success_message_template",
    "untitled_name", "empty_description", "empty_success_message"]

/-- Reads the fields of the terminal step, of which there must be one. -/
def decodeFinalFields (v : Value) : Except Error (List Field) :=
  let fields := do
    let vs ← v.elementsOrNone
    Field.decodeAll vs
  match fields with
  | .ok [] => .error .noFinalFields
  | .ok fs => .ok fs
  | .error e => .error (if e.isDecoding then .badFinalFields e else e)

/-- Reads the settings from the members of a record. -/
def ofMembers (ms : Members) : Except Error CompileSettings :=
  let stock : CompileSettings := {}
  let unknown := (Members.names ms).filter fun name => !(settingNames.map Value.text).contains name
  if unknown.isEmpty then do
    let finalFields ← match Members.get? ms "final_fields" with
      | none => .ok stock.finalFields
      | some v => decodeFinalFields v
    pure {
      entryFieldId := Members.getD ms "entry_field_id" stock.entryFieldId
      entryFieldLabel := Members.getD ms "entry_field_label" stock.entryFieldLabel
      branchTitle := Members.getD ms "branch_title_template" stock.branchTitle
      branchFieldLabel := Members.getD ms "branch_field_label_template" stock.branchFieldLabel
      finalTitle := Members.getD ms "final_step_title" stock.finalTitle
      finalFields
      description := Members.getD ms "description_template" stock.description
      successMessage := Members.getD ms "success_message_template" stock.successMessage
      untitledName := Members.getD ms "untitled_name" stock.untitledName
      emptyDescription := Members.getD ms "empty_description" stock.emptyDescription
      emptySuccessMessage := Members.getD ms "empty_success_message" stock.emptySuccessMessage }
  else do
    let keys ← Value.asTexts (← Value.sorted unknown)
    let available ← Value.asTexts (← Value.sorted (settingNames.map .text))
    .error (.unknownSettings keys available)

/-- Reads settings. A value that does not count as present stands for the stock settings. -/
def decode (v : Value) : Except Error CompileSettings :=
  if v.truthy then
    match v with
    | .record ms => ofMembers ms
    | v => .error (.settingsNotRecord v.kindName)
  else .ok {}

end CompileSettings

/-- A template filled from a label. -/
def fillLabel (template label : Value) : Except Error Value := do
  let template ← template.asText
  let label ← label.asText
  let filled ← Text.fill template label
  pure (.text filled)

end BranchForm
