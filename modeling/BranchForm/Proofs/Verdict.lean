import BranchForm.Proofs.Reach
import BranchForm.Proofs.Reports
import Mathlib

/-!
# What the check of a form decides

The check of a form collects errors and flaws from all over it. Flaws do not count, so its verdict
comes to seven properties, which `Form.WellFormed` lists.

* `Form.Knows` holds of the targets that are in order;
* `decides_checkStepIds` and the like say what the check of one property decides, `judges_checkStep`
  and the like what the check of one part does: these fail at targets that are lists or records;
* `judges_checkForm` puts them together, and `checkForm_decides` is the result on the whole check.
-/

namespace BranchForm

namespace Form

/-- A target is one that the form knows: the reserved id of the last step, or the id of a step. -/
def Knows (form : Form) (target : Value) : Prop := target = .text finalStepId ∨ form.Has target

/-- What is documented of a form with steps that is valid. -/
structure WellFormed (form : Form) : Prop where
  /-- No two steps have the same id. -/
  distinct : form.stepIds.Nodup
  /-- There is an entry step. -/
  entry : entryStepId ∈ form.stepIds
  /-- One step is marked as the last. -/
  last : form.steps.countP (·.isLast) = 1
  /-- The reserved id is that of steps marked as the last. -/
  reserved : ∀ s ∈ form.steps, s.id = finalStepId → s.isLast = true
  /-- No two fields of a step have ids that agree. -/
  fields : ∀ s ∈ form.steps, s.fields.Pairwise fun f g => f.id.agrees g.id = false
  /-- The choices of the steps' own fields lead to steps, if anywhere. -/
  choices : ∀ s ∈ form.steps, ∀ f ∈ s.fields, ∀ c ∈ f.choices,
    c.target = .null ∨ form.Knows c.target
  /-- The conditions lead to steps. -/
  conditions : ∀ s ∈ form.steps, ∀ c ∈ s.conditions, form.Knows (.text c.nextStep)

variable {form : Form}

theorem has_iff {v : Value} : form.Has v ↔ v ∈ form.stepIds.map Value.text := by
  simp [Has, stepIds, eq_comm]

theorem knows_text_iff {stepId : String} :
    form.Knows (.text stepId) ↔ stepId = finalStepId ∨ stepId ∈ form.stepIds := by
  simp [Knows, has_iff]

end Form

/-! ### Single properties -/

theorem decides_checkStepIds (seen : List String) (ss : List Step) :
    (checkStepIds seen ss).Decides ((∀ s ∈ ss, s.id ∉ seen) ∧ (ss.map Step.id).Nodup) := by
  induction ss generalizing seen with
  | nil => exact Report.decides_ok.congr (by simp)
  | cons s ss ih =>
    refine ((Report.decides_error_if (s.id ∈ seen) _).merge (ih (s.id :: seen))).congr ?_
    simp only [List.map_cons, List.nodup_cons, List.mem_cons, List.mem_map, not_or, not_exists,
      not_and]
    grind

section Properties

variable (form : Form) (s : Step)

theorem decides_checkEntry : (checkEntry form).Decides (entryStepId ∈ form.stepIds) :=
  .ite (fun h => Report.decides_ok.congr (by simp [h]))
    (fun h => (Report.decides_error _).congr (by simp [h]))

theorem decides_checkLast : (checkLast form).Decides (form.steps.countP (·.isLast) = 1) := by
  rw [checkLast, List.countP_eq_length_filter]
  split
  · rename_i hnone
    exact (Report.decides_error _).congr (by simp [hnone])
  · rename_i hone
    exact Report.decides_ok.congr (by simp [hone])
  · rename_i several hnone hone
    refine (Report.decides_error _).congr (iff_of_false id fun hlength => ?_)
    obtain ⟨last, hlast⟩ := List.length_eq_one_iff.1 hlength
    exact hone last hlast

theorem decides_checkReserved :
    (checkReserved s).Decides (s.id = finalStepId → s.isLast = true) :=
  (Report.decides_error_if (s.id = finalStepId ∧ s.isLast = false) _).congr (by simp)

theorem decides_checkCondition (c : Condition) :
    (checkCondition form s c).Decides (form.Knows (.text c.nextStep)) := by
  rw [Form.knows_text_iff]
  refine (Report.decides_error_if (c.nextStep ≠ finalStepId ∧ c.nextStep ∉ form.stepIds) _).congr ?_
  rw [not_and_or, not_ne_iff, not_not]

/-! ### Parts of a form -/

theorem judges_checkChoice (c : Choice) : Judges (checkChoice form s c) (c.target.isKey = true)
    (c.target = .null ∨ form.Knows c.target) := by
  unfold checkChoice
  split
  · rename_i hnull
    exact (judges_ok Report.decides_ok).congr (by simp [hnull, Value.isKey]) (by simp [hnull])
  · rename_i hnull
    split
    · rename_i hfinal
      exact (judges_ok Report.decides_ok).congr (by simp [hfinal, Value.isKey])
        (by simp [hfinal, Form.Knows])
    · rename_i hfinal
      have hstep : (c.target = .null ∨ form.Knows c.target) ↔
          c.target ∈ form.stepIds.map Value.text := by
        rw [Form.Knows, Form.has_iff, or_iff_right hnull, or_iff_right hfinal]
      rw [hstep]
      split
      · rename_i hkey
        exact (judges_error _).congr (by simpa using hkey) .rfl
      · rename_i hkey
        have htrue : True ↔ c.target.isKey = true := by simpa using hkey
        dsimp only
        split
        · rename_i hunknown
          exact (judges_ok (Report.decides_error _)).congr htrue (by simp only [hunknown])
        · rename_i hknown
          have hknown : c.target ∈ form.stepIds.map Value.text := not_not.1 hknown
          -- a last step that leads on is a flaw only
          split
          · exact (judges_ok (Report.decides_flaw _)).congr htrue (by simp only [hknown])
          · exact (judges_ok Report.decides_ok).congr htrue (by simp only [hknown])

theorem judges_checkField (seen : List Field) (f : Field) : Judges (checkField form s seen f)
    (∀ c ∈ f.choices, c.target.isKey = true)
    ((∀ g ∈ seen, g.id.agrees f.id = false) ∧
      ∀ c ∈ f.choices, c.target = .null ∨ form.Knows c.target) := by
  refine (judges_concatReports fun c _ => judges_checkChoice form s c).map fun choices hchoices => ?_
  have hduplicate := Report.decides_error_if (f.id.within (seen.map Field.id) = true)
    s!"Step '{s.id}' has duplicate field id '{f.id.display}'"
  refine ((hduplicate.merge (Report.decides_flaw_if _ _)).merge hchoices).congr ?_
  simp [Value.within]

theorem judges_checkStep : Judges (checkStep form s)
    (∀ f ∈ s.fields, ∀ c ∈ f.choices, c.target.isKey = true)
    (((s.id = finalStepId → s.isLast = true) ∧
      s.fields.Pairwise (fun f g => f.id.agrees g.id = false) ∧
      ∀ f ∈ s.fields, ∀ c ∈ f.choices, c.target = .null ∨ form.Knows c.target) ∧
      ∀ c ∈ s.conditions, form.Knows (.text c.nextStep)) := by
  refine (judges_concatWithSeen fun before f _ => judges_checkField form s before f).map
    fun r hr => ?_
  have hfields := hr.congr (and_iff_right (fun _ h => absurd h List.not_mem_nil))
  exact ((decides_checkReserved s).merge hfields).merge
    (Report.decides_concat fun c _ => decides_checkCondition form s c)

/-- Steps out of reach do not make a form invalid. -/
theorem decides_of_checkReach {r : Report} (h : checkReach form = .ok r) : r.Decides True := by
  unfold checkReach at h
  split at h
  · obtain ⟨reached, -, hout⟩ := bind_eq_ok_iff.1 h
    cases hout
    exact (Report.decides_concat fun s _ => .ite (fun _ => Report.decides_ok)
      (fun _ => Report.decides_flaw _)).congr (by simp)
  · cases h
    exact Report.decides_ok

/-- If no target is a list or a record, the steps in reach are found. -/
theorem exists_checkReach (hkeys : ∀ s ∈ form.steps, ∀ f ∈ s.fields, ∀ c ∈ f.choices,
    c.target.isKey = true) : ∃ r, checkReach form = .ok r := by
  obtain ⟨reached, hreached⟩ : ∃ reached, form.reachable (.text entryStepId) = .ok reached :=
    Form.reachable_ok_iff.2 fun v w _ hleads => hleads.isKey hkeys
  unfold checkReach
  split
  · exact ⟨_, by rw [hreached]; rfl⟩
  · exact ⟨_, rfl⟩

end Properties

/-! ### The whole check -/

/-- The check of a form with steps judges whether it is well formed. -/
theorem judges_checkForm {form : Form} (hsteps : form.steps ≠ []) : Judges (checkForm form)
    (∀ s ∈ form.steps, ∀ f ∈ s.fields, ∀ c ∈ f.choices, c.target.isKey = true) form.WellFormed := by
  have hcheck : checkForm form = (do
      let steps ← concatReports (checkStep form) form.steps
      let reach ← checkReach form
      pure (.concat [checkStepIds [] form.steps, checkEntry form, checkLast form, steps, reach])) :=
    if_neg (by simpa using hsteps)
  have hparts : Judges (concatReports (checkStep form) form.steps) _ _ :=
    judges_concatReports fun s _ => judges_checkStep form s
  rw [hcheck]
  constructor
  · rw [← hparts.ends]
    constructor
    · rintro ⟨report, h⟩
      obtain ⟨steps, hsteps, -⟩ := bind_eq_ok_iff.1 h
      exact ⟨steps, hsteps⟩
    · rintro ⟨steps, hsteps⟩
      obtain ⟨reach, hreach⟩ := exists_checkReach form (hparts.ends.1 ⟨steps, hsteps⟩)
      exact ⟨_, bind_eq_ok_iff.2 ⟨steps, hsteps, bind_eq_ok_iff.2 ⟨reach, hreach, rfl⟩⟩⟩
  · intro report h
    obtain ⟨steps, hsteps, h⟩ := bind_eq_ok_iff.1 h
    obtain ⟨reach, hreach, hout⟩ := bind_eq_ok_iff.1 h
    cases hout
    have hids : (checkStepIds [] form.steps).Decides form.stepIds.Nodup :=
      (decides_checkStepIds [] form.steps).congr (and_iff_right fun _ _ => List.not_mem_nil)
    have hall := ((((Report.decides_ok.merge hids).merge (decides_checkEntry form)).merge
      (decides_checkLast form)).merge (hparts.decides steps hsteps)).merge
      (decides_of_checkReach form hreach)
    refine hall.congr ⟨?_, ?_⟩
    · rintro ⟨⟨⟨⟨⟨-, hdistinct⟩, hentry⟩, hlast⟩, hstep⟩, -⟩
      exact ⟨hdistinct, hentry, hlast, fun s hs => (hstep s hs).1.1, fun s hs => (hstep s hs).1.2.1,
        fun s hs => (hstep s hs).1.2.2, fun s hs => (hstep s hs).2⟩
    · intro h
      have hstep (s : Step) (hs : s ∈ form.steps) :=
        And.intro (And.intro (h.reserved s hs) (And.intro (h.fields s hs) (h.choices s hs)))
          (h.conditions s hs)
      exact ⟨⟨⟨⟨⟨trivial, h.distinct⟩, h.entry⟩, h.last⟩, hstep⟩, trivial⟩

/-- **The check of a form decides what is documented of it.** Of a form with steps there is a report
unless a choice of one of the steps' own fields has a list or a record for its target. It is valid
exactly if it lists no errors, and exactly if the form is well formed. -/
theorem checkForm_decides (form : Form) (hsteps : form.steps ≠ []) :
    ((∃ report, checkForm form = .ok report) ↔
      ∀ s ∈ form.steps, ∀ f ∈ s.fields, ∀ c ∈ f.choices, c.target.isKey = true) ∧
    ∀ report, checkForm form = .ok report →
      (report.valid = true ↔ report.errors = []) ∧ (report.valid = true ↔ form.WellFormed) := by
  have hjudges := judges_checkForm hsteps
  refine ⟨hjudges.ends, fun report hreport => ?_⟩
  have hdecides := hjudges.decides report hreport
  exact ⟨hdecides.errors, hdecides.holds⟩

/-- A form with flaws: a question without choices, and a last step that leads back. -/
def kiosk : Form where
  name := "Kiosk"
  steps := [
    { id := "step1", title := "Welcome"
      fields := [.mk { id := "ware", kind := .radio, label := "Ware" } []]
      conditions := [{ fieldId := "ware", value := "map", nextStep := "step_final" }] },
    { id := "till", title := "Till", isLast := true
      fields := [.mk { id := "more", kind := .radio, label := "More", choices := [
        { id := "yes", label := "Yes", value := "yes", nextField := "step1" },
        { id := "no", label := "No", value := "no" }] } []] }]

/-- The form is well formed, and no longer so with its steps twice. -/
theorem checkForm_decides_kiosk :
    (∃ report, checkForm kiosk = .ok report ∧ report.valid = true ∧ report.errors = [] ∧
      report.warnings.length = 2) ∧ kiosk.WellFormed ∧
    ∃ report, checkForm { kiosk with steps := kiosk.steps ++ kiosk.steps } = .ok report ∧
      report.errors ≠ [] := by
  obtain ⟨report, hcheck, hvalid, hwarnings⟩ : ∃ report, checkForm kiosk = .ok report ∧
      report.valid = true ∧ report.warnings.length = 2 := ⟨_, by cbv, rfl, rfl⟩
  obtain ⟨-, hdecides⟩ := checkForm_decides kiosk (by decide)
  obtain ⟨herrors, hformed⟩ := hdecides report hcheck
  refine ⟨⟨report, hcheck, hvalid, herrors.1 hvalid, hwarnings⟩, hformed.1 hvalid, ?_⟩
  obtain ⟨hends, hdecides⟩ :=
    checkForm_decides { kiosk with steps := kiosk.steps ++ kiosk.steps } (by decide)
  obtain ⟨twice, hcheck⟩ := hends.2 (by simp [kiosk, Field.choices, Field.question, Choice.target,
    Value.orElse, Value.truthy, Value.isKey])
  obtain ⟨herrors, hformed⟩ := hdecides twice hcheck
  refine ⟨twice, hcheck, fun hnone => ?_⟩
  have hdistinct := (hformed.1 (herrors.2 hnone)).distinct
  revert hdistinct
  decide

end BranchForm
