import BranchForm.Proofs.Return
import BranchForm.Proofs.Verdict

/-!
# Sessions on checked forms

A valid report on a form vouches for the targets that it has looked at: those of conditions and those
of the choices of the steps' own fields. The check looks at no field inside another one, but a
respondent may pick a choice there. So on a checked form a respondent can still be stranded, in one
way only.

* `Form.WellLinked` is what a valid report vouches for (`Form.wellLinked_of_valid`);
  `Form.WellLinked.branchTarget_error_iff` says when an answer leads astray on such a form;
* `Session.warnings_set` and `Session.warnings_advance` : answers and going on lead astray nowhere on
  a well-linked form; `Session.strays_iff` : a pick does so exactly if its choice does;
* `strays_into_nested` is the result on checked forms; `stranded_on_checked` shows a respondent
  stranded on one.
-/

namespace BranchForm

/-! ### What a valid report vouches for -/

namespace Form

/-- A form with a last step, in which all targets are known but those inside fields. -/
structure WellLinked (form : Form) : Prop where
  /-- A step is marked as the last one. -/
  last : ∃ s ∈ form.steps, s.isLast = true
  /-- The choices of the steps' own fields lead to steps, if anywhere. -/
  choices : ∀ s ∈ form.steps, ∀ f ∈ s.fields, ∀ c ∈ f.choices,
    c.target ≠ .null → form.Knows c.target
  /-- The conditions lead to steps. -/
  conditions : ∀ s ∈ form.steps, ∀ c ∈ s.conditions, form.Knows (.text c.nextStep)

variable {form : Form} {s : Step}

/-- **A valid report vouches for the targets of a form with steps**, as far as it has looked. -/
theorem wellLinked_of_valid (hsteps : form.steps ≠ []) {report : Report}
    (hcheck : checkForm form = .ok report) (hvalid : report.valid = true) : form.WellLinked := by
  have h := ((judges_checkForm hsteps).decides report hcheck).holds.1 hvalid
  refine ⟨?_, fun s hs f hf c hc => (h.choices s hs f hf c hc).resolve_left, h.conditions⟩
  have hmarked : 0 < form.steps.countP (·.isLast) := by rw [h.last]; exact Nat.one_pos
  exact List.countP_pos_iff.1 hmarked

/-! ### Targets on well-linked forms -/

theorem ne_null_of_pickedTarget? {f : Field} {given : List Value} {target : Value}
    (h : pickedTarget? f given = some target) : target ≠ .null := by
  fun_induction pickedTarget? f given with
  | case1 => cases h
  | case2 answer rest c hchoice hnull ih => exact ih h
  | case3 answer rest c hchoice hnull => exact Option.some.inj h ▸ hnull
  | case4 answer rest hchoice ih => exact ih h
  | case5 answer rest hanswer ih => exact ih h

/-- A target that the form does not know resolves nowhere. -/
theorem resolve_of_unknown {target : Value} (hunknown : ¬ form.Knows target) (source : Value) :
    form.resolve source target = .error (.unknownTarget source target) := by
  obtain ⟨hfinal, hhas⟩ := not_or.1 hunknown
  have hnone : form.stepOf? target = none :=
    Option.eq_none_iff_forall_ne_some.2 fun step hstep => hhas (has_of_stepOf? hstep)
  simp only [resolve, hfinal, ↓reduceIte, hnone]

namespace WellLinked

theorem exists_last? (h : form.WellLinked) : ∃ last, form.last? = some last ∧ last ∈ form.steps := by
  obtain ⟨s, hs, hlast⟩ := h.last
  cases hfind : form.steps.find? (·.isLast) with
  | some last => exact ⟨last, by simp only [last?, hfind], List.mem_of_find?_eq_some hfind⟩
  | none => exact absurd hlast (List.find?_eq_none.1 hfind s hs)

/-- A known target resolves. -/
theorem exists_resolve (h : form.WellLinked) {target : Value} (hknown : form.Knows target)
    (source : Value) : ∃ v, form.resolve source target = .ok v := by
  by_cases hfinal : target = .text finalStepId
  · obtain ⟨last, hlast, hmem⟩ := h.exists_last?
    obtain ⟨step, hstep⟩ := exists_stepOf?_of_has ⟨last, hmem, rfl⟩
    exact ⟨.text last.id, by simp only [resolve, hfinal, hlast, ↓reduceIte, hstep]⟩
  · obtain ⟨step, hstep⟩ := exists_stepOf?_of_has (hknown.resolve_left hfinal)
    exact ⟨target, by simp only [resolve, hfinal, ↓reduceIte, hstep]⟩

/-- The target of a condition that holds is found. -/
theorem exists_resolve_fired (h : form.WellLinked) (hs : s ∈ form.steps) {answers : Members}
    {c : Condition} (hfired : firedCondition? s answers = some c) (source : Value) :
    ∃ v, form.resolve source (.text c.nextStep) = .ok v :=
  h.exists_resolve (h.conditions s hs c (List.mem_of_find?_eq_some hfired)) source

variable (session : Session) {fieldId : Value}

/-- An answer leads astray exactly if no condition holds and the choice picked does. -/
theorem branchTarget_error_iff (h : form.WellLinked) (hs : s ∈ form.steps) {picked : Option Choice}
    {target : Value} :
    form.branchTarget session s fieldId picked = .error (.unknownTarget session.current target) ↔
      firedCondition? s session.answers = none ∧
        ∃ c, picked = some c ∧ c.target = target ∧ target ≠ .null ∧ ¬ form.Knows target := by
  cases hfired : firedCondition? s session.answers with
  | some c =>
    obtain ⟨v, hv⟩ := h.exists_resolve_fired hs hfired session.current
    simp [branchTarget, hfired, hv, Except.map]
  | none =>
    cases picked with
    | none => simp [branchTarget, hfired]
    | some c =>
      have hpicked {P : Choice → Prop} : (∃ d, some c = some d ∧ P d) ↔ P c := by simp
      rw [hpicked, and_iff_right rfl]
      by_cases hnull : c.target = .null
      · -- a choice without a target is another cause to stay
        constructor
        · intro herror
          simp [branchTarget, hfired, hnull] at herror
        · rintro ⟨rfl, hne, -⟩
          exact absurd hnull hne
      · by_cases hknown : form.Knows c.target
        · obtain ⟨v, hv⟩ := h.exists_resolve hknown session.current
          constructor
          · intro herror
            simp [branchTarget, hfired, hnull, hv, Except.map] at herror
          · rintro ⟨rfl, -, hunknown⟩
            exact absurd hknown hunknown
        · have herror : form.branchTarget session s fieldId (some c) =
              .error (.unknownTarget session.current c.target) := by
            simp [branchTarget, hfired, hnull, resolve_of_unknown hknown, Except.map]
          rw [herror, Except.error.injEq, Unresolved.unknownTarget.injEq, and_iff_right rfl]
          constructor
          · rintro rfl
            exact ⟨rfl, hnull, hknown⟩
          · rintro ⟨htarget, -, -⟩
            exact htarget

/-- Without a choice an answer leads astray nowhere. -/
theorem exists_branchTarget (h : form.WellLinked) (hs : s ∈ form.steps) :
    ∃ target, form.branchTarget session s fieldId none = .ok target := by
  cases hfired : firedCondition? s session.answers with
  | some c =>
    obtain ⟨v, hv⟩ := h.exists_resolve_fired hs hfired session.current
    exact ⟨some v, by simp only [branchTarget, hfired, hv, Except.map]⟩
  | none => exact ⟨none, by simp only [branchTarget, hfired]⟩

/-- The answers stored lead astray nowhere. -/
theorem exists_answeredTarget (h : form.WellLinked) (hs : s ∈ form.steps) :
    ∃ target, form.answeredTarget session s = .ok target := by
  cases hfired : firedCondition? s session.answers with
  | some c =>
    obtain ⟨v, hv⟩ := h.exists_resolve_fired hs hfired session.current
    exact ⟨some v, by simp only [answeredTarget, hfired, hv, Except.map]⟩
  | none =>
    cases hpicked : s.fields.findSome? fun f => pickedTarget? f (answersTo session.answers f) with
    | none => exact ⟨none, by simp only [answeredTarget, hfired, hpicked]⟩
    | some target =>
      -- going on looks at the step's own fields only, as the check does
      obtain ⟨f, hf, htarget⟩ := List.exists_of_findSome?_eq_some hpicked
      obtain ⟨c, hc, rfl⟩ := exists_choice_of_pickedTarget? htarget
      obtain ⟨v, hv⟩ := h.exists_resolve
        (h.choices s hs f hf c hc (ne_null_of_pickedTarget? htarget)) session.current
      exact ⟨some v, by simp only [answeredTarget, hfired, hpicked, hv, Except.map]⟩

end WellLinked

end Form

/-! ### Requests on well-linked forms -/

namespace Session

variable {form : Form} {s : Session} {step : Step} {f : Field} {fieldId value : Value}

theorem warnings_follow {target : Option Value} {trigger : Trigger} :
    (s.follow (.ok target) trigger fieldId value).warnings = [] := by
  cases target <;> rfl

theorem staying_mem_follow_iff {target : Except Unresolved (Option Value)} {trigger : Trigger}
    {cause : Unresolved} :
    Warning.staying cause ∈ (s.follow target trigger fieldId value).warnings ↔
      target = .error cause := by
  cases target with
  | error other => simp [follow, eq_comm]
  | ok target => simp [warnings_follow]

theorem warnings_set (h : form.WellLinked) (s : Session) (fieldId value : Value) :
    (s.set form fieldId value).warnings = [] := by
  unfold Session.set
  split
  · dsimp only
    split
    · rfl
    · rename_i step hstep
      obtain ⟨target, htarget⟩ := h.exists_branchTarget _ (of_step hstep).1
      rw [htarget, warnings_follow]
  · rfl

theorem warnings_leave (h : form.WellLinked) (hstep : step ∈ form.steps) :
    (s.leave form step).warnings = [] := by
  obtain ⟨target, htarget⟩ := h.exists_answeredTarget s hstep
  unfold leave
  split
  · rfl
  · dsimp only
    rw [htarget]
    cases target <;> rfl

theorem warnings_advance (h : form.WellLinked) (s : Session) : (s.advance form).warnings = [] := by
  unfold advance
  split
  · rfl
  · rfl
  · split
    · rfl
    · rename_i step hstep
      exact warnings_leave h (of_step hstep).1

/-- A pick leads astray exactly if the choice that it follows does, and no condition holds then. -/
theorem strays_iff (h : form.WellLinked) (hstep : s.step form = .ok step) {target : Value} :
    Warning.staying (.unknownTarget s.current target) ∈ (s.select form fieldId value).warnings ↔
      ∃ f c, findField step fieldId = some f ∧ s.picked? f fieldId value = some c ∧
        Form.firedCondition? step
          (s.withAnswer fieldId (s.answerAfter f fieldId value)).answers = none ∧
        c.target = target ∧ target ≠ .null ∧ ¬ form.Knows target := by
  cases hfield : findField step fieldId with
  | none =>
    constructor
    · intro hmem
      simp [select, hstep, hfield] at hmem
    · rintro ⟨f, c, hf, -⟩
      cases hf
  | some f =>
    obtain ⟨stored, hselect, hstored⟩ := exists_select_picked value hstep hfield
    rw [hselect, staying_mem_follow_iff]
    refine (h.branchTarget_error_iff (s.withAnswer fieldId stored) (of_step hstep).1).trans
      ⟨?_, ?_⟩
    · rintro ⟨hfired, c, hc, hstrays⟩
      exact ⟨f, c, rfl, hc, hstored c hc ▸ hfired, hstrays⟩
    · rintro ⟨f, c, ⟨⟩, hc, hfired, hstrays⟩
      exact ⟨(hstored c hc).symm ▸ hfired, c, hc, hstrays⟩

end Session

/-- **Where a respondent is stranded on a checked form.** On a form with a valid report the targets of
conditions and of the choices of a step's own fields resolve, so no answer given and no going on ever
fails for an unknown target. A pick fails for one exactly if its field stands inside another one, the
choice picked there names a target that the form does not know, and no condition holds. -/
theorem strays_into_nested {form : Form} {report : Report} (hcheck : checkForm form = .ok report)
    (hvalid : report.valid = true) {s : Session} {step : Step} (hstep : s.step form = .ok step) :
    (∀ c ∈ step.conditions, ∃ v, form.resolve s.current (.text c.nextStep) = .ok v) ∧
    (∀ f ∈ step.fields, ∀ c ∈ f.choices, c.target ≠ .null →
      ∃ v, form.resolve s.current c.target = .ok v) ∧
    (∀ fieldId value, (s.set form fieldId value).warnings = []) ∧
    (s.advance form).warnings = [] ∧
    ∀ fieldId value target,
      Warning.staying (.unknownTarget s.current target) ∈ (s.select form fieldId value).warnings ↔
        ∃ f c, Session.findField step fieldId = some f ∧ f ∉ step.fields ∧
          s.picked? f fieldId value = some c ∧
          Form.firedCondition? step
            (s.withAnswer fieldId (s.answerAfter f fieldId value)).answers = none ∧
          c.target = target ∧ target ≠ .null ∧ ¬ form.Knows target := by
  have hmem := (Session.of_step hstep).1
  have hlinked := Form.wellLinked_of_valid (List.ne_nil_of_mem hmem) hcheck hvalid
  refine ⟨fun c hc => hlinked.exists_resolve (hlinked.conditions step hmem c hc) s.current,
    fun f hf c hc hnull => hlinked.exists_resolve (hlinked.choices step hmem f hf c hc hnull) s.current,
    Session.warnings_set hlinked s, Session.warnings_advance hlinked s, fun fieldId value target => ?_⟩
  rw [Session.strays_iff hlinked hstep]
  constructor
  · rintro ⟨f, c, hf, hc, hfired, htarget, hnull, hunknown⟩
    refine ⟨f, c, hf, fun hown => ?_, hc, hfired, htarget, hnull, hunknown⟩
    rw [← htarget] at hnull hunknown
    exact hunknown (hlinked.choices step hmem f hown c
      (List.mem_of_find?_eq_some (Session.choice?_of_picked? hc)) hnull)
  · rintro ⟨f, c, hf, -, hc, hstrays⟩
    exact ⟨f, c, hf, hc, hstrays⟩

/-- A choice that names a step the form below does not have. -/
def abroad : Choice := { id := "abroad", label := "Abroad", value := "abroad", nextField := "customs" }

/-- A field with this choice. -/
def country : Field :=
  .mk { id := "country", kind := .radio, label := "Country", choices := [
    { id := "home", label := "Home", value := "home", nextField := "step_final" }, abroad] } []

/-- A form made by hand in which the field stands inside another one. -/
def delivery : Form :=
  { name := "Delivery"
    steps := [
      { id := "step1", title := "Delivery"
        fields := [.mk { id := "way", kind := .radio, label := "Way", choices := [
          { id := "post", label := "Post", value := "post", nextField := "step_final" }] }
          [country]] },
      { id := "step_final", title := "Done", isLast := true }] }

/-- A fresh session on the form. -/
def deliverySession : Session := { current := .text entryStepId }

theorem checkForm_delivery : checkForm delivery = .ok .ok := by cbv

theorem strays_into_nested_delivery :
    checkForm delivery = .ok .ok ∧
    (∀ fieldId value, (deliverySession.set delivery fieldId value).warnings = []) ∧
    (deliverySession.advance delivery).warnings = [] ∧
    Warning.staying (.unknownTarget "step1" "customs") ∈
      (deliverySession.select delivery "country" "abroad").warnings ∧
    Warning.staying (.unknownTarget "step1" "step_final") ∉
      (deliverySession.select delivery "way" "post").warnings := by
  obtain ⟨-, -, hset, hadvance, hstrays⟩ :=
    strays_into_nested checkForm_delivery rfl (s := deliverySession) rfl
  refine ⟨checkForm_delivery, hset, hadvance, ?_, ?_⟩
  · have hunknown : ¬ delivery.Knows "customs" := by
      simp [Form.Knows, Form.Has, delivery, finalStepId]
    have hpicked : deliverySession.picked? country "country" "abroad" = some abroad := by cbv
    exact (hstrays "country" "abroad" "customs").2
      ⟨country, abroad, by cbv, by decide, hpicked, rfl, rfl, by decide, hunknown⟩
  · intro hmem
    obtain ⟨f, c, -, -, -, -, -, -, hunknown⟩ := (hstrays "way" "post" "step_final").1 hmem
    exact hunknown (.inl rfl)

/-- The report finds nothing amiss, and a first pick on a fresh session is stranded. -/
theorem stranded_on_checked :
    checkForm delivery = .ok .ok ∧ delivery.Reached Request.isNamed deliverySession ∧
      (deliverySession.select delivery "country" "abroad").outcome = .ok .stayed ∧
      (deliverySession.select delivery "country" "abroad").warnings =
        [.staying (.unknownTarget "step1" "customs")] := by
  refine ⟨checkForm_delivery, .fresh rfl, ?_, ?_⟩
  · cbv
  · cbv

end BranchForm
