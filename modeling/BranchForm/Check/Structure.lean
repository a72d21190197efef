import BranchForm.Check.Reach
import BranchForm.Check.Report

/-!
# The structure of a form

A form with steps has an entry step and one step marked as the last, no two steps of one id and no
two fields of one id on a step, and its targets are steps. Steps out of reach, choice fields without
choices and choices that lead on from the last step are flaws.

* `checkStepIds`, `checkLast`, `checkReserved`, `checkField` and `checkCondition` report on single
  rules;
* `checkForm` is the whole report, in the order of the document;
* `ensureValid` gives a form back unless it is invalid.
-/

namespace BranchForm

/-- Reports on elements in turn, each with the elements before it. -/
def concatWithSeen {α : Type} (report : List α → α → Except Error Report) (seen : List α) :
    List α → Except Error Report
  | [] => .ok .ok
  | a :: as => do
    let r ← report seen a
    let s ← concatWithSeen report (seen ++ [a]) as
    pure (r.merge s)

/-- Reports on elements in turn. -/
def concatReports {α : Type} (report : α → Except Error Report) : List α → Except Error Report
  | [] => .ok .ok
  | a :: as => do
    let r ← report a
    let s ← concatReports report as
    pure (r.merge s)

/-- Reports every step id that an earlier step has. -/
def checkStepIds (seen : List String) : List Step → Report
  | [] => .ok
  | s :: ss =>
    (if s.id ∈ seen then Report.error s!"Duplicate step id: '{s.id}'" else .ok).merge
      (checkStepIds (s.id :: seen) ss)

/-- Reports a form without an entry step. -/
def checkEntry (form : Form) : Report :=
  if entryStepId ∈ form.stepIds then .ok else .error s!"Form has no entry step '{entryStepId}'"

/-- Reports a form with none or several steps marked as the last. -/
def checkLast (form : Form) : Report :=
  match form.steps.filter (·.isLast) with
  | [] => .error "Form has no step marked isLastStep"
  | [_] => .ok
  | several => .error
    s!"Form has multiple last steps: {(Error.texts (several.map (·.id))).literal}"

/-- Reports a step that has the reserved id without being the last. -/
def checkReserved (s : Step) : Report :=
  if s.id = finalStepId ∧ s.isLast = false then
    .error s!"Reserved id '{finalStepId}' used by a step that is not the last step"
  else .ok

/-- Reports a choice that leads to no step, or on from the last step. -/
def checkChoice (form : Form) (s : Step) (c : Choice) : Except Error Report :=
  match c.target with
  | .null => .ok .ok
  | target =>
    if target = .text finalStepId then .ok .ok
    else if !target.isKey then Value.fail .wrongKind
    else
      let choice := c.id.display
      let place := target.display
      if target ∉ form.stepIds.map Value.text then
        .ok (.error s!"Option '{choice}' on step '{s.id}' points to unknown step '{place}'")
      else if s.isLast then
        .ok (.flaw s!"Last step '{s.id}' has option '{choice}' leading to '{place}'")
      else .ok .ok

/-- Reports a field whose id an earlier field of the step has, a choice field without choices, and
what is amiss with its choices. The ids are meant to be texts; other values are taken for one id if
they agree, and lists and records are compared like any others. -/
def checkField (form : Form) (s : Step) (seen : List Field) (f : Field) : Except Error Report := do
  let duplicate : Report :=
    if f.id.within (seen.map Field.id) then
      .error s!"Step '{s.id}' has duplicate field id '{f.id.display}'"
    else .ok
  let unfilled : Report :=
    if f.question.kind.isChoice && f.choices.isEmpty then
      let id := f.id.display
      let kind := f.question.kind.name
      .flaw s!"Field '{id}' on step '{s.id}' is a {kind} field without options"
    else .ok
  let choices ← concatReports (checkChoice form s) f.choices
  pure ((duplicate.merge unfilled).merge choices)

/-- Reports a condition that leads to no step. -/
def checkCondition (form : Form) (s : Step) (c : Condition) : Report :=
  if c.nextStep ≠ finalStepId ∧ c.nextStep ∉ form.stepIds then
    .error s!"Condition on step '{s.id}' points to unknown step '{c.nextStep}'"
  else .ok

/-- Reports on one step. -/
def checkStep (form : Form) (s : Step) : Except Error Report := do
  let fields ← concatWithSeen (checkField form s) [] s.fields
  pure (((checkReserved s).merge fields).merge (.concat (s.conditions.map (checkCondition form s))))

/-- Reports the steps out of reach of the entry step. -/
def checkReach (form : Form) : Except Error Report :=
  if entryStepId ∈ form.stepIds ∧ form.steps.length > 1 then do
    let reached ← form.reachable entryStepId
    pure (.concat (form.steps.map fun s =>
      if .text s.id ∈ reached then .ok
      else .flaw s!"Step '{s.id}' is not reachable from '{entryStepId}'"))
  else .ok .ok

/-- Reports on the structure of a form. A form without steps has none to report on. -/
def checkForm (form : Form) : Except Error Report :=
  if form.steps.isEmpty then .ok .ok
  else do
    let steps ← concatReports (checkStep form) form.steps
    let reach ← checkReach form
    pure (.concat [checkStepIds [] form.steps, checkEntry form, checkLast form, steps, reach])

/-- What a demand for validity answers: the form or an error, with the warnings given on the way. -/
structure Ensured where
  /-- The form, or why it is refused. -/
  outcome : Except Error Form
  /-- The warnings given. -/
  warnings : List Warning := []
  deriving Repr

/-- Gives a form back unless it is invalid; its flaws are warnings. -/
def ensureValid (form : Form) : Ensured :=
  match checkForm form with
  | .error e => { outcome := .error e }
  | .ok report =>
    if report.valid then { outcome := .ok form, warnings := report.warnings.map .flaw }
    else { outcome := .error (.invalidForm report.errors) }

end BranchForm
