import BranchForm.Form.Codec
import BranchForm.Tree.Basic

/-!
# Reopening a form as an option tree

The choices of the entry step become the children of a new root. A choice that leads to a step with
choices becomes a node with the nodes of those choices below it, any other choice a leaf.

A stored form may be damaged. It has no tree when the entry step is missing, a choice leads to no
step or back to a step on its own path, two choices lead to one step with choices, or two nodes
would have one id.

* `reopenChoice` and `reopenChoices` follow the choices down. `path` holds the steps above and
  `expanded` the steps that already stand in the tree; the steps not on the path become fewer with
  every level;
* `Form.reopen` is the tree of a form; `openForm` and `openRecord` open a decoded and a stored form.
-/

namespace BranchForm

/-- The label of a root whose form has no name. -/
def defaultRootLabel : Value := .text "Form"

/-- The id of the root unless another is given. -/
def defaultRootId : Value := .text "root-1"

/-- The step ids that do not stand on a path. -/
def offPath (form : Form) (path : List String) : List String :=
  form.stepIds.filter fun stepId => !path.contains stepId

/-- A longer path takes its new step from those that do not stand on it. -/
theorem offPath_cons (form : Form) (stepId : String) (path : List String) :
    offPath form (stepId :: path) = (offPath form path).filter fun i => !decide (i = stepId) := by
  simp [offPath, List.filter_filter, Bool.not_or]

theorem length_offPath_lt {form : Form} {path : List String} {stepId : String}
    (hmem : stepId ∈ form.stepIds) (hpath : stepId ∉ path) :
    (offPath form (stepId :: path)).length < (offPath form path).length := by
  rw [offPath_cons, List.length_filter_lt_length_iff_exists]
  exact ⟨stepId, by simp [offPath, hmem, hpath], by simp⟩

theorem mem_stepIds_of_latestStep? {form : Form} {stepId : String} {s : Step}
    (h : form.latestStep? stepId = some s) : stepId ∈ form.stepIds := by
  have hid := List.find?_some h
  have hmem := List.mem_of_find?_eq_some h
  simp only [List.mem_reverse] at hmem
  simp only [beq_iff_eq] at hid
  exact List.mem_map.2 ⟨s, hmem, hid⟩

/-- Why a choice cannot be followed: a target that is a list or a record is no name at all, any
other target that is no text names no step. -/
def strayTarget (choice target : Value) : Error :=
  if target.isKey then .malformed (.unknownTarget choice target) else .fault .wrongKind

/-- The node of a choice, with its children below it. -/
def choiceNode (c : Choice) (multiple : Bool) (children : List OptionTree) : OptionTree :=
  .node { id := c.id, label := c.label, multiple := .bool multiple, image := c.image.orElse .null }
    children

/-- Whether several choices of the first field of a step may be picked together. -/
def Step.leadMultiple (s : Step) : Bool :=
  match s.fields with
  | [] => false
  | f :: _ => f.question.kind.isMultiple

mutual

/-- The tree of a choice, and the steps that stand in the tree afterwards. -/
def reopenChoice (form : Form) (path expanded : List String) (c : Choice) :
    Except Error (OptionTree × List String) :=
  match c.target with
  | .text target =>
    if target = "" ∨ target = finalStepId then .ok (choiceNode c false [], expanded)
    else if _hpath : target ∈ path then .error (.malformed (.leadsBack c.id (.text target)))
    else match _hstep : form.latestStep? target with
      | none => .error (.malformed (.unknownTarget c.id (.text target)))
      | some s =>
        if s.leadChoices.isEmpty then .ok (choiceNode c false [], expanded)
        else if target ∈ expanded then .error (.malformed (.alreadyExpanded c.id (.text target)))
        else
          match reopenChoices form (target :: path) (target :: expanded) s.leadChoices with
          | .error e => .error e
          | .ok (children, expanded) => .ok (choiceNode c s.leadMultiple children, expanded)
  | target =>
    if target.truthy then .error (strayTarget c.id target)
    else .ok (choiceNode c false [], expanded)
termination_by ((offPath form path).length, 0)
decreasing_by
  exact Prod.Lex.left _ _ (length_offPath_lt (mem_stepIds_of_latestStep? _hstep) _hpath)

/-- The trees of choices, from the first to the last. -/
def reopenChoices (form : Form) (path expanded : List String) (cs : List Choice) :
    Except Error (List OptionTree × List String) :=
  match cs with
  | [] => .ok ([], expanded)
  | c :: cs =>
    match reopenChoice form path expanded c with
    | .error e => .error e
    | .ok (t, expanded) =>
      match reopenChoices form path expanded cs with
      | .error e => .error e
      | .ok (ts, expanded) => .ok (t :: ts, expanded)
termination_by ((offPath form path).length, cs.length + 1)
decreasing_by
  · apply Prod.Lex.right; omega
  · apply Prod.Lex.right; simp only [List.length_cons]; omega

end

/-- The ids that occur more than once, each once, in rising order. All of them must be texts. -/
def repeatedIds (ids : List Value) : Except Error (List String) := do
  let found := ids.filter fun i => (ids.filter (·.agrees i)).length > 1
  if found.all Value.isKey then do
    let each := found.foldl (fun seen i => if i.within seen then seen else seen ++ [i]) []
    Value.asTexts (← Value.sorted each)
  else Value.fail .wrongKind

/-- The tree of a form, or none if its entry step offers nothing. -/
def Form.reopen (form : Form) (rootId : Value) : Except Error (Option OptionTree) :=
  if form.steps.isEmpty then .ok none
  else match form.entry? with
    | none => .error (.malformed .noEntry)
    | some entry =>
      if entry.leadChoices.isEmpty then .ok none
      else match reopenChoices form [entryStepId] [] entry.leadChoices with
        | .error e => .error e
        | .ok (children, _) =>
          let root := OptionTree.node
            { id := rootId, label := form.name.orElse defaultRootLabel, kind := .root } children
          match repeatedIds root.ids with
          | .error e => .error e
          | .ok [] => .ok (some root)
          | .ok ids => .error (.malformed (.repeatedIds ids))

/-- What opening a form answers: a draft or an error, with the warnings given on the way. -/
structure Opened where
  /-- The draft, or why there is none. -/
  outcome : Except Error (Option OptionTree)
  /-- The warnings given. -/
  warnings : List Warning := []
  deriving Repr

/-- Opens a form. Unless the caller is strict, a malformed form is opened as an empty draft, with a
warning. -/
def openOutcome (strict : Bool) (outcome : Except Error (Option OptionTree)) : Opened :=
  match outcome with
  | .error (.malformed cause) =>
    if strict then { outcome } else { outcome := .ok none, warnings := [.openedEmpty cause] }
  | outcome => { outcome }

/-- Opens a decoded form. -/
def openForm (form : Form) (rootId : Value) (strict : Bool) : Opened :=
  openOutcome strict (form.reopen rootId)

/-- Opens the record of a form. A record that cannot be decoded is malformed. -/
def openRecord (v : Value) (rootId : Value) (strict : Bool) : Opened :=
  openOutcome strict (match Form.decode v with
    | .ok form => form.reopen rootId
    | .error e => .error (if e.isDecoding then .malformed (.undecodable e.message) else e))

end BranchForm
