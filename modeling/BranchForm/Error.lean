import BranchForm.Value.Display
import BranchForm.Form.Reserved

/-!
# Errors and warnings

An operation that has no result says why by a cause; the wording of a cause is in one place.

* `Fault` lists what can go wrong with data whose kind was never checked;
* `Malformation` lists why a step graph has no option tree, `Unresolved` why a move has no target;
* `Error` lists the causes an operation can end with; `Error.message` words them and `Error.context`
  holds the ids and values involved;
* `Warning` lists what is worth telling although the operation goes on.
-/

namespace BranchForm

/-- What went wrong with a value of unchecked kind. -/
inductive Fault where
  /-- The value is of a kind that cannot be looked into, iterated, ordered or used as a name. -/
  | wrongKind
  /-- The value does not have the operation asked of it. -/
  | missingOperation
  /-- A record has no member of the name. -/
  | missingKey
  /-- A sequence has no place of the number. -/
  | missingIndex
  /-- The value is of the right kind but not one of those allowed. -/
  | badValue
  /-- A settings text holds a character that no text may hold. -/
  | badCharacter
  /-- A settings text cannot be divided into tokens. -/
  | badToken
  /-- The tokens of a settings text do not form a document. -/
  | badStructure
  /-- A settings text refers to a node it does not have, or has several documents. -/
  | badReference
  /-- A settings text holds a node that stands for no value. -/
  | badNode
  deriving DecidableEq, Repr, Inhabited

/-- Why a step graph has no option tree. -/
inductive Malformation where
  /-- The graph could not be decoded, for the reason given. -/
  | undecodable (reason : String)
  /-- No step has the id of the entry step. -/
  | noEntry
  /-- A choice leads back to a step on its own path. -/
  | leadsBack (choice target : Value)
  /-- A choice leads to a step the form does not have. -/
  | unknownTarget (choice target : Value)
  /-- A choice leads to a step that another choice was expanded with. -/
  | alreadyExpanded (choice target : Value)
  /-- Several nodes would have one id. -/
  | repeatedIds (ids : List String)
  deriving DecidableEq, Repr

namespace Malformation

/-- The step at which the problem was found, if there is one. -/
def step : Malformation → Value
  | .leadsBack _ target | .unknownTarget _ target | .alreadyExpanded _ target => target
  | _ => .null

/-- The problem in words. -/
def reason : Malformation → String
  | .undecodable reason => reason
  | .noEntry => s!"no entry step '{entryStepId}'"
  | .leadsBack choice target => s!"option '{choice.display}' leads back to '{target.display}'"
  | .unknownTarget choice _ => s!"option '{choice.display}' points to unknown step"
  | .alreadyExpanded choice _ =>
    s!"option '{choice.display}' leads to a step already expanded under another option"
  | .repeatedIds ids => "option ids repeat: " ++ ", ".intercalate ids

/-- The message of a malformed graph. -/
def message (m : Malformation) : String :=
  match m.step with
  | .null => s!"Malformed step graph: {m.reason}"
  | step => s!"Malformed step graph at '{step.display}': {m.reason}"

end Malformation

/-- Why a move of a respondent has no target. -/
inductive Unresolved where
  /-- The target is the id of no step. -/
  | unknownTarget (source target : Value)
  /-- The chosen option names no target. -/
  | noTarget (source fieldId : Value)
  deriving DecidableEq, Repr

/-- The message of an unresolved move. -/
def Unresolved.message : Unresolved → String
  | .unknownTarget source target => s!"{source.display}: unknown target step '{target.display}'"
  | .noTarget source fieldId =>
    s!"{source.display}: no next step defined for field '{fieldId.display}'"

/-- The edits that need a node to be present. -/
inductive EditKind where
  /-- Adding a node under another one. -/
  | insert
  /-- Moving a node under another one. -/
  | move
  deriving DecidableEq, Repr

/-- The name of an edit in messages. -/
def EditKind.name : EditKind → String
  | .insert => "insert_child"
  | .move => "move_node"

/-- The causes for which an operation has no result. -/
inductive Error where
  /-- Data of an unexpected kind. -/
  | fault (cause : Fault)
  /-- A node of a stored tree has no id. -/
  | nodeWithoutId (keys : List Value)
  /-- A node of a stored tree is neither root nor option. -/
  | unknownNodeKind (nodeId kind : Value)
  /-- A part of a stored form lacks a required member. -/
  | missingMember (part key : String) (keys : List Value)
  /-- A stored field is of no known type. -/
  | unknownFieldType (fieldId type : Value)
  /-- A stored form is not a record. -/
  | formNotRecord (kind : String)
  /-- The text of a form is not JSON. -/
  | formNotJson (reason : String)
  /-- A storage body has no payload. -/
  | bodyWithoutPayload (keys : List Value)
  /-- The payload of a storage body is not JSON. -/
  | payloadNotJson (reason : String)
  /-- The payload of a storage body does not have the shape of a step graph. -/
  | payloadMismatch (violations : List Value)
  /-- Settings are not a record. -/
  | settingsNotRecord (kind : String)
  /-- Settings have members that no setting is named by. -/
  | unknownSettings (keys available : List String)
  /-- The terminal fields of settings cannot be decoded. -/
  | badFinalFields (cause : Error)
  /-- Settings list no terminal field. -/
  | noFinalFields
  /-- There is no settings file of the path. -/
  | settingsFileMissing (path : String)
  /-- An edit names a node the tree does not have. -/
  | nodeNotFound (nodeId : Value) (edit : EditKind)
  /-- An inserted tree has ids the tree already has. -/
  | duplicateIds (ids : List String) (parentId : Value)
  /-- A patch names fields a node does not have. -/
  | unknownNodeFields (nodeId : Value) (names : List String)
  /-- The root of a tree cannot be moved. -/
  | rootMoved (nodeId : Value)
  /-- A node cannot be moved below itself. -/
  | movedIntoItself (nodeId parentId : Value)
  /-- All children of a node have blank labels. -/
  | unlabelledChildren (nodeId : Value)
  /-- A step graph has no option tree. -/
  | malformed (cause : Malformation)
  /-- A form does not have the structure of a form. -/
  | invalidForm (errors : List Value)
  /-- A form without steps cannot be walked. -/
  | noSteps (form : Value)
  /-- A session stands on a step the form does not have. -/
  | unknownStep (form step : Value)
  deriving Repr, Inhabited

namespace Error

/-- A cause in words. Faults of unchecked data have no wording of their own. -/
def message : Error → String
  | .fault _ => ""
  | .nodeWithoutId _ => "Tree node is missing 'id'"
  | .unknownNodeKind _ kind => s!"Unknown node kind '{kind.display}'"
  | .missingMember part key _ => s!"{part} is missing required key '{key}'"
  | .unknownFieldType _ type => s!"Unknown field type '{type.display}'"
  | .formNotRecord _ => "Step graph must be a JSON object"
  | .formNotJson _ => "Step graph is not valid JSON"
  | .bodyWithoutPayload _ => "Form record is missing 'formPayload'"
  | .payloadNotJson _ => "formPayload is not valid JSON"
  | .payloadMismatch _ => "formPayload does not match the step graph schema"
  | .settingsNotRecord _ => "Compiler configuration must be a mapping"
  | .unknownSettings keys _ =>
    "Unknown compiler configuration key(s): " ++ ", ".intercalate keys
  | .badFinalFields cause => s!"Invalid final_fields: {cause.message}"
  | .noFinalFields => "final_fields must contain at least one field"
  | .settingsFileMissing _ => "Compiler configuration file not found"
  | .nodeNotFound nodeId edit => s!"{edit.name}: node '{nodeId.display}' not found"
  | .duplicateIds ids parentId =>
    s!"Cannot insert under '{parentId.display}': ids already in tree: " ++ ", ".intercalate ids
  | .unknownNodeFields _ names => "Unknown tree node field(s): " ++ ", ".intercalate names
  | .rootMoved _ => "Cannot move the root node"
  | .movedIntoItself nodeId _ => s!"Cannot move '{nodeId.display}' into its own subtree"
  | .unlabelledChildren nodeId =>
    s!"Node '{nodeId.display}' cannot be compiled: all child options are missing labels"
  | .malformed cause => cause.message
  | .invalidForm errors =>
    "Step graph validation failed:\n" ++ "\n".intercalate (errors.map fun e => "  - " ++ e.display)
  | .noSteps _ => "Cannot navigate a form with no steps"
  | .unknownStep _ step => s!"Navigation state points to unknown step '{step.display}'"

/-- Texts as a value. -/
def texts (ss : List String) : Value := .list (ss.map .text)

/-- The ids and values a cause is about. -/
def context : Error → Members
  | .fault _ => []
  | .nodeWithoutId keys => [("keys", .list keys)]
  | .unknownNodeKind nodeId kind => [("node_id", nodeId), ("kind", kind)]
  | .missingMember part _ keys => [("kind", .text part), ("keys", .list keys)]
  | .unknownFieldType fieldId type => [("field_id", fieldId), ("type", type)]
  | .formNotRecord kind => [("type", .text kind)]
  | .formNotJson reason => [("format", .text "json"), ("error", .text reason)]
  | .bodyWithoutPayload keys => [("keys", .list keys)]
  | .payloadNotJson reason => [("format", .text "json"), ("error", .text reason)]
  | .payloadMismatch violations => [("errors", .list violations)]
  | .settingsNotRecord kind => [("type", .text kind)]
  | .unknownSettings keys available =>
    [("unknown_keys", texts keys), ("available_keys", texts available)]
  | .badFinalFields cause => cause.context
  | .noFinalFields => [("config_key", .text "final_fields")]
  | .settingsFileMissing path => [("path", .text path)]
  | .nodeNotFound nodeId edit => [("node_id", nodeId), ("operation", .text edit.name)]
  | .duplicateIds ids parentId => [("duplicate_ids", texts ids), ("parent_id", parentId)]
  | .unknownNodeFields nodeId names => [("node_id", nodeId), ("fields", texts names)]
  | .rootMoved nodeId => [("node_id", nodeId)]
  | .movedIntoItself nodeId parentId =>
    [("node_id", nodeId), ("new_parent_id", parentId)]
  | .unlabelledChildren nodeId =>
    [("node_id", nodeId), ("reason", .text "all child options are missing labels")]
  | .malformed cause => [("step_id", cause.step), ("reason", .text cause.reason)]
  | .invalidForm errors => [("errors", .list errors)]
  | .noSteps form => [("form", form)]
  | .unknownStep form step => [("form", form), ("step_id", step)]

/-- Whether the cause is that stored data could not be decoded. A step graph without an option tree
counts as undecodable. -/
def isDecoding : Error → Bool
  | .nodeWithoutId _ | .unknownNodeKind .. | .missingMember .. | .unknownFieldType ..
  | .formNotRecord _ | .formNotJson _ | .bodyWithoutPayload _ | .payloadNotJson _
  | .payloadMismatch _ | .malformed _ => true
  | _ => false

end Error

/-- What is worth telling although an operation goes on. -/
inductive Warning where
  /-- A malformed form is opened as an empty tree. -/
  | openedEmpty (cause : Malformation)
  /-- A stored form that cannot be decoded is opened as an empty tree. -/
  | undecodable (cause : Error)
  /-- A form that is valid has a flaw. -/
  | flaw (text : Value)
  /-- A selection names a field the step does not have. -/
  | noSuchField (step fieldId : Value)
  /-- A jump names a step the form does not have. -/
  | noSuchStep (stepId : Value)
  /-- An answer leads nowhere, and the step stays. -/
  | staying (cause : Unresolved)
  /-- An answer given before leads nowhere, and the order of the document is followed. -/
  | ignoringAnswer (cause : Unresolved)
  deriving Repr

/-- A warning in words. -/
def Warning.message : Warning → String
  | .openedEmpty cause => s!"Opening malformed form as an empty tree: {cause.message}"
  | .undecodable cause => s!"Cannot decode stored form, opening empty tree: {cause.message}"
  | .flaw text => s!"Step graph warning: {text.display}"
  | .noSuchField step fieldId =>
    s!"Step '{step.display}' has no field '{fieldId.display}'; selection ignored"
  | .noSuchStep stepId => s!"Cannot jump to unknown step '{stepId.display}'"
  | .staying cause => s!"Staying on step: {cause.message}"
  | .ignoringAnswer cause => s!"Ignoring answered branch: {cause.message}"

end BranchForm
