import BranchForm.Settings
import BranchForm.Text.Slug
import BranchForm.Tree.Basic

/-!
# Compiling an option tree into a form

The children of the root become the choices of the entry step. Every other node with children gets a
step of its own, whose choices are its children, and a leaf leads to the terminal step.

* `branchStepId` names the step of a node by a number and the node's id, so that nodes with equal
  labels have different steps. Numbers are given out in the order from the top, a node before its
  children;
* `compileBranch` compiles one node and `compileChoices` the children of one. A step is put behind
  the steps of its node's descendants;
* `compile` compiles a whole tree; a tree without options becomes a form without steps.
-/

namespace BranchForm

/-- The number of the first branch step; the entry step counts as the first step. -/
def firstBranchNumber : Nat := 2

/-- The id of the step of a node. -/
def branchStepId (number : Nat) (nodeId : Value) : String := s!"step{number}_{nodeId.display}"

/-- The id of the field on the step of a node. -/
def branchFieldId (nodeId : Value) : String := nodeId.display ++ "_selection"

/-- Whether a label counts as missing: it is absent or empty, or a text of blanks. -/
def isBlankLabel (label : Value) : Except Error Bool :=
  if label.truthy then do
    let s ← label.asText
    pure (Text.isBlankText s)
  else .ok true

/-- Whether all labels count as missing; the first one that does not decides. -/
def allBlank : List OptionTree → Except Error Bool
  | [] => .ok true
  | t :: ts => do
    if ← isBlankLabel t.label then allBlank ts else pure false

/-- Refuses children whose labels are all missing. -/
def checkLabels (nodeId : Value) (children : List OptionTree) : Except Error Unit := do
  if children.isEmpty then pure ()
  else if ← allBlank children then .error (.unlabelledChildren nodeId)
  else pure ()

/-- The slug of a label, which must be a text. -/
def labelSlug (label : Value) : Except Error Value := do
  let s ← label.asText
  pure (.text (Text.slug s))

/-- What has been compiled: the result for the node or nodes at hand, the steps put out for them in
order, and the number of the next branch step. -/
structure Compiled (α : Type) where
  /-- The result. -/
  result : α
  /-- The steps put out. -/
  steps : List Step
  /-- The number of the next branch step. -/
  next : Nat
  deriving Repr

/-- The field of a branch step. -/
def branchField (d : Node) (label : Value) (choices : List Choice) : Field :=
  .mk { id := .text (branchFieldId d.id)
        kind := if d.multiple.truthy then .checkbox else .radio, label, choices } []

/-- The choice that stands for a child. -/
def childChoice (d : Node) (value : Value) (target : String) : Choice :=
  { id := d.id, label := d.label, value, image := d.image.orElse (.text "")
    nextField := .text target }

mutual

/-- Compiles a node below the root; the result is the id of the step it leads to. -/
def compileBranch (settings : CompileSettings) (number : Nat) :
    OptionTree → Except Error (Compiled String)
  | .node _ [] => .ok ⟨finalStepId, [], number⟩
  | .node d (c :: cs) => do
    let title ← fillLabel settings.branchTitle d.label
    let label ← fillLabel settings.branchFieldLabel d.label
    checkLabels d.id (c :: cs)
    let inner ← compileChoices settings (number + 1) (c :: cs)
    let stepId := branchStepId number d.id
    let step : Step :=
      { id := stepId, title, fields := [branchField d label inner.result] }
    pure ⟨stepId, inner.steps ++ [step], inner.next⟩

/-- Compiles the children of a node, from the first to the last; the result is their choices. -/
def compileChoices (settings : CompileSettings) (number : Nat) :
    List OptionTree → Except Error (Compiled (List Choice))
  | [] => .ok ⟨[], [], number⟩
  | t :: ts => do
    let value ← labelSlug t.label
    let branch ← compileBranch settings number t
    let others ← compileChoices settings branch.next ts
    pure ⟨childChoice t.data value branch.result :: others.result, branch.steps ++ others.steps,
      others.next⟩

end

/-- The form of a draft without options. -/
def emptyForm (settings : CompileSettings) (name : Value) : Form :=
  { name := name.orElse settings.untitledName
    description := settings.emptyDescription
    settings := { successMessage := settings.emptySuccessMessage } }

/-- The entry step of a tree. -/
def entryStep (settings : CompileSettings) (root : Node) (choices : List Choice) : Step :=
  { id := entryStepId
    title := root.label
    fields := [.mk { id := settings.entryFieldId, kind := .imageSelect,
                     label := settings.entryFieldLabel, choices } []] }

/-- The terminal step. -/
def finalStep (settings : CompileSettings) : Step :=
  { id := finalStepId, title := settings.finalTitle, fields := settings.finalFields
    isLast := true }

/-- Compiles a tree, or the form of no tree. -/
def compile (settings : CompileSettings) (tree : Option OptionTree) : Except Error Form :=
  match tree with
  | none => .ok (emptyForm settings (.text ""))
  | some (.node root []) => .ok (emptyForm settings root.label)
  | some (.node root (c :: cs)) => do
    checkLabels root.id (c :: cs)
    let inner ← compileChoices settings firstBranchNumber (c :: cs)
    let description ← fillLabel settings.description root.label
    let successMessage ← fillLabel settings.successMessage root.label
    pure {
      name := root.label
      description
      steps := entryStep settings root inner.result :: inner.steps ++ [finalStep settings]
      settings := { successMessage } }

end BranchForm
