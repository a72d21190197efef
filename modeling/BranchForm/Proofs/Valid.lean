import BranchForm.Proofs.Compiled
import BranchForm.Proofs.Nested
import BranchForm.Proofs.Reach
import BranchForm.Proofs.Reports
import Mathlib

/-!
# Compiled forms are valid

The check of a form finds nothing amiss with what the compiler puts out, whatever the ids of the
tree, as long as the fields of the terminal step are in order themselves.

* `checkField_ok`, `checkStep_ok` and `checkForm_ok` say what it takes for nothing to be reported;
* `Form.Arranged.reaches_step` : the entry step leads to every step of a compiled form;
  `reaches_branch` and `reaches_choices` follow the choices down the tree;
* `Form.Arranged.has_of_choice` and `Form.Arranged.has_of_choice_within` : choices lead to steps, those
  of the steps' own fields and those of the fields inside them;
* `checkForm_of_compile` : the report on a compiled form is empty.
-/

namespace BranchForm

/-! ### Parts in order -/

theorem checkStepIds_ok {seen : List String} {ss : List Step} (hseen : ∀ s ∈ ss, s.id ∉ seen)
    (hd : (ss.map Step.id).Nodup) : checkStepIds seen ss = .ok := by
  induction ss generalizing seen with
  | nil => rfl
  | cons s ss ih =>
    rw [List.map_cons, List.nodup_cons] at hd
    have hrest : checkStepIds (s.id :: seen) ss = .ok := by
      refine ih (fun t ht hmem => ?_) hd.2
      rcases List.mem_cons.1 hmem with heq | hmem
      · exact hd.1 (heq ▸ List.mem_map_of_mem ht)
      · exact hseen t (List.mem_cons_of_mem _ ht) hmem
    rw [checkStepIds, if_neg (hseen s List.mem_cons_self), hrest]
    rfl

section Parts

variable {form : Form} {s : Step}

/-- A choice is in order if it leads to a step of the form, and not on from the last step. -/
theorem checkChoice_ok {c : Choice} (htarget : form.Has c.target)
    (hlast : c.target = .text finalStepId ∨ s.isLast = false) : checkChoice form s c = .ok .ok := by
  obtain ⟨step, hmem, hstep⟩ := htarget
  have hid : step.id ∈ form.stepIds := List.mem_map_of_mem hmem
  unfold checkChoice
  split
  · rfl
  · split
    · rfl
    · rename_i hne
      have hopen : s.isLast = false := hlast.resolve_left hne
      simp [hstep, Value.isKey, hid, hopen]

/-- A field is in order if its id is new, it offers choices where it must, and they are in order. -/
theorem checkField_ok {seen : List Field} {f : Field}
    (hnew : f.id.within (seen.map Field.id) = false)
    (hfilled : f.question.kind.isChoice = true → f.choices ≠ [])
    (hchoices : ∀ c ∈ f.choices, checkChoice form s c = .ok .ok) :
    checkField form s seen f = .ok .ok := by
  have hunfilled : (f.question.kind.isChoice && f.choices.isEmpty) = false := by
    rw [Bool.and_eq_false_iff]
    cases hkind : f.question.kind.isChoice with
    | false => exact .inl rfl
    | true => exact .inr (List.isEmpty_eq_false_iff.2 (hfilled hkind))
  simp only [checkField, hnew, hunfilled, concatReports_ok hchoices, Bool.false_eq_true, ↓reduceIte]
  rfl

/-- A step without conditions is in order if its fields are, and if it is the last one where it has
the reserved id. -/
theorem checkStep_ok (hreserved : s.id = finalStepId → s.isLast = true)
    (hconditions : s.conditions = [])
    (hfields : ∀ before f after, s.fields = before ++ f :: after →
      checkField form s before f = .ok .ok) : checkStep form s = .ok .ok := by
  have hfree : ¬ (s.id = finalStepId ∧ s.isLast = false) := by
    rintro ⟨hid, hlast⟩
    rw [hreserved hid] at hlast
    cases hlast
  have hseen : concatWithSeen (checkField form s) [] s.fields = .ok .ok :=
    concatWithSeen_ok fun before f after heq => hfields before f after heq
  simp only [checkStep, hseen, checkReserved, hfree, ↓reduceIte, hconditions]
  rfl

/-- A form is in order if its step ids are distinct, it has an entry step and one last step, its
steps are in order, and the entry step reaches all of them. -/
theorem checkForm_ok {last : Step} {reached : List Value} (hd : form.stepIds.Nodup)
    (hentry : entryStepId ∈ form.stepIds) (hlast : form.steps.filter (·.isLast) = [last])
    (hsteps : ∀ s ∈ form.steps, checkStep form s = .ok .ok)
    (hreach : form.reachable (.text entryStepId) = .ok reached)
    (hreached : ∀ s ∈ form.steps, Value.text s.id ∈ reached) : checkForm form = .ok .ok := by
  have hcheck : checkReach form = .ok .ok := by
    have hflaws : Report.concat (form.steps.map fun s => if Value.text s.id ∈ reached then Report.ok
        else .flaw s!"Step '{s.id}' is not reachable from '{entryStepId}'") = .ok := by
      refine Report.concat_ok fun r hr => ?_
      obtain ⟨s, hs, rfl⟩ := List.mem_map.1 hr
      exact if_pos (hreached s hs)
    unfold checkReach
    split
    · rw [hreach]
      exact congrArg Except.ok hflaws
    · rfl
  have hids : checkStepIds [] form.steps = .ok :=
    checkStepIds_ok (fun _ _ => List.not_mem_nil) hd
  unfold checkForm
  split
  · rfl
  · simp only [concatReports_ok hsteps, hcheck, hids, checkEntry, hentry, ↓reduceIte, checkLast, hlast]
    rfl

end Parts

/-! ### Compiled forms -/

namespace Form.Arranged

variable {settings : CompileSettings} {root : Node} {choices : List Choice} {branches : List Step}
  {form : Form}

theorem mem_entry (h : form.Arranged settings root choices branches) :
    entryStep settings root choices ∈ form.steps := by
  rw [h.steps]
  exact List.mem_cons_self

/-- The steps of a compiled form. -/
theorem mem_steps_iff (h : form.Arranged settings root choices branches) {s : Step} :
    s ∈ form.steps ↔ s = entryStep settings root choices ∨ s ∈ branches ∨ s = finalStep settings := by
  rw [h.steps, List.cons_append, List.mem_cons, List.mem_append, List.mem_singleton]

theorem branch_ids (h : form.Arranged settings root choices branches) {s : Step}
    (hs : s ∈ branches) :
    s.id ≠ entryStepId ∧ s.id ≠ finalStepId := by
  obtain ⟨high, hlaid⟩ := h.laid
  obtain ⟨k, nodeId, -, -, hid⟩ := hlaid.numbered s hs
  exact ⟨hid ▸ branchStepId_ne_entry k nodeId, hid ▸ branchStepId_ne_final k nodeId⟩

theorem has_of_leadsInto (h : form.Arranged settings root choices branches) {steps : List Step}
    (hsub : steps ⊆ branches) {c : Choice} (hc : c.LeadsInto steps) : form.Has c.target := by
  rcases hc with hfinal | ⟨s, hs, hid⟩
  · exact ⟨_, h.mem_final, hfinal⟩
  · exact ⟨s, h.mem_branch (hsub hs), hid⟩

/-- All choices but those of the terminal step lead to steps of the form. -/
theorem has_target (h : form.Arranged settings root choices branches) {s : Step}
    (hs : s = entryStep settings root choices ∨ s ∈ branches) {c : Choice} (hc : c ∈ s.leadChoices) :
    form.Has c.target := by
  rcases hs with rfl | hs
  · exact h.has_of_leadsInto (List.Subset.refl _) (h.leads c hc)
  · obtain ⟨high, hlaid⟩ := h.laid
    obtain ⟨i, hi⟩ := List.getElem?_of_mem hs
    exact h.has_of_leadsInto (List.take_subset _ _) (hlaid.backward i s hi c hc)

theorem filter_isLast (h : form.Arranged settings root choices branches) :
    form.steps.filter (·.isLast) = [finalStep settings] := by
  obtain ⟨high, hlaid⟩ := h.laid
  have hnone : branches.filter (·.isLast) = [] := by
    rw [List.filter_eq_nil_iff]
    intro s hs
    obtain ⟨q, -, -, hlast⟩ := hlaid.plain s hs
    simp [hlast]
  simp [h.steps, List.filter_append, hnone, entryStep, finalStep]

/-! The steps of a compiled form are reached. -/

theorem place_eq (h : form.Arranged settings root choices branches) (target : Value) :
    form.place target = target := by
  unfold Form.place Form.lastId
  rw [h.last?_eq]
  split
  · rename_i htarget
    exact htarget.symm
  · rfl

/-- What a step of a compiled form leads to. -/
theorem leadsTo_iff (h : form.Arranged settings root choices branches) {s : Step}
    (hs : s ∈ form.steps)
    {w : Value} : form.LeadsTo (.text s.id) w ↔ w ∈ s.targets := by
  have hplace : form.place = id := funext h.place_eq
  simp only [LeadsTo, successors, latestStep?_of_mem h.nodup_stepIds hs, hplace, List.map_id]

theorem truthy_of_has (h : form.Arranged settings root choices branches) {v : Value}
    (hv : form.Has v) :
    v.truthy = true := by
  obtain ⟨s, hs, rfl⟩ := hv
  have hne : s.id ≠ "" := by
    rcases h.mem_steps_iff.1 hs with rfl | hs | rfl
    · simp [entryStep, entryStepId]
    · obtain ⟨high, hlaid⟩ := h.laid
      obtain ⟨k, nodeId, -, -, hid⟩ := hlaid.numbered s hs
      exact hid ▸ branchStepId_ne_empty k nodeId
    · simp [finalStep, finalStepId]
  simpa [Value.truthy] using hne

/-- A step leads to the targets of its choices. -/
theorem leadsTo_target (h : form.Arranged settings root choices branches) {s : Step}
    (hs : s = entryStep settings root choices ∨ s ∈ branches) {c : Choice} (hc : c ∈ s.leadChoices) :
    form.LeadsTo (.text s.id) c.target := by
  have hmem : s ∈ form.steps := h.mem_steps_iff.2 (hs.imp_right .inl)
  have htruthy := h.truthy_of_has (h.has_target hs hc)
  rw [h.leadsTo_iff hmem, Step.targets, List.mem_append, List.mem_flatMap]
  cases hfields : s.fields with
  | nil => simp [Step.leadChoices, hfields] at hc
  | cons f fs =>
    refine .inr ⟨f, List.mem_cons_self, List.mem_filter.2 ⟨?_, htruthy⟩⟩
    simp only [Step.leadChoices, hfields] at hc
    exact List.mem_map_of_mem hc

/-- Whatever a step leads to is a step. -/
theorem has_of_leadsTo (h : form.Arranged settings root choices branches)
    (hplain : ∀ f ∈ settings.finalFields, f.choices = []) {v w : Value} (hw : form.LeadsTo v w) :
    form.Has w := by
  obtain ⟨stepId, hid, rfl⟩ := mem_stepIds_of_successors (List.ne_nil_of_mem hw)
  obtain ⟨s, hs, rfl⟩ := List.mem_map.1 hid
  rw [h.leadsTo_iff hs, Step.targets, List.mem_append, List.mem_flatMap] at hw
  obtain ⟨high, hlaid⟩ := h.laid
  rcases h.mem_steps_iff.1 hs with hentry | hbranch | rfl
  · subst hentry
    obtain ⟨f, hf, hwf⟩ := hw.resolve_left (by simp [entryStep])
    rw [entryStep, List.mem_singleton] at hf
    obtain ⟨c, hc, rfl⟩ := List.mem_map.1 (List.mem_filter.1 hwf).1
    refine h.has_target (.inl rfl) ?_
    rw [hf] at hc
    exact hc
  · obtain ⟨q, hfields, hconditions, -⟩ := hlaid.plain s hbranch
    obtain ⟨f, hf, hwf⟩ := hw.resolve_left (by simp [hconditions])
    rw [hfields, List.mem_singleton] at hf
    obtain ⟨c, hc, rfl⟩ := List.mem_map.1 (List.mem_filter.1 hwf).1
    refine h.has_target (.inr hbranch) ?_
    rw [hf] at hc
    rw [Step.leadChoices, hfields]
    exact hc
  · obtain ⟨f, hf, hwf⟩ := hw.resolve_left (by simp [finalStep])
    rw [hplain f hf] at hwf
    simp at hwf

mutual

/-- Whatever leads to a node leads to all steps put out for it and to the end of the form. -/
theorem reaches_branch (h : form.Arranged settings root choices branches) {n : Nat} {t : OptionTree}
    {branch : Compiled String} (hbranch : compileBranch settings n t = .ok branch)
    (hsub : branch.steps ⊆ branches) {start : Value}
    (hstart : form.Reaches start (.text branch.result)) :
    (∀ s ∈ branch.steps, form.Reaches start (.text s.id)) ∧
      form.Reaches start (.text finalStepId) := by
  match t with
  | .node d [] =>
    cases hbranch
    exact ⟨fun s hs => absurd hs List.not_mem_nil, hstart⟩
  | .node d (c :: cs) =>
    obtain ⟨title, label, inner, -, -, -, hinner, rfl⟩ := compileBranch_inv hbranch
    have hmem : branchStep n d title label inner.result ∈ branches :=
      hsub (List.mem_append_right _ (List.mem_singleton_self _))
    have htargets : ∀ choice ∈ inner.result, form.Reaches start choice.target := fun choice hc =>
      hstart.tail (h.leadsTo_target (.inr hmem) hc)
    obtain ⟨hsteps, hfinal⟩ := h.reaches_choices hinner
      (fun s hs => hsub (List.mem_append_left _ hs)) htargets
    refine ⟨fun s hs => ?_, hfinal (List.cons_ne_nil _ _)⟩
    rcases List.mem_append.1 hs with hs | hs
    · exact hsteps s hs
    · exact List.mem_singleton.1 hs ▸ hstart

/-- Whatever leads where the choices of some nodes do leads to all steps put out for the nodes. -/
theorem reaches_choices (h : form.Arranged settings root choices branches) {n : Nat}
    {ts : List OptionTree} {out : Compiled (List Choice)}
    (hout : compileChoices settings n ts = .ok out) (hsub : out.steps ⊆ branches) {start : Value}
    (hstart : ∀ c ∈ out.result, form.Reaches start c.target) :
    (∀ s ∈ out.steps, form.Reaches start (.text s.id)) ∧
      (ts ≠ [] → form.Reaches start (.text finalStepId)) := by
  match ts with
  | [] =>
    cases hout
    exact ⟨fun s hs => absurd hs List.not_mem_nil, fun hne => absurd rfl hne⟩
  | t :: ts =>
    obtain ⟨value, branch, others, -, hbranch, hothers, rfl⟩ := compileChoices_inv hout
    obtain ⟨hsteps, hfinal⟩ := h.reaches_branch hbranch
      (fun s hs => hsub (List.mem_append_left _ hs)) (hstart _ List.mem_cons_self)
    obtain ⟨hrest, -⟩ := h.reaches_choices hothers
      (fun s hs => hsub (List.mem_append_right _ hs))
      (fun c hc => hstart c (List.mem_cons_of_mem _ hc))
    exact ⟨fun s hs => (List.mem_append.1 hs).elim (hsteps s) (hrest s), fun _ => hfinal⟩

end

/-- The entry step reaches all steps. -/
theorem reaches_step {inner : Compiled (List Choice)} {t : OptionTree} {ts : List OptionTree}
    (h : form.Arranged settings root inner.result inner.steps)
    (hinner : compileChoices settings firstBranchNumber (t :: ts) = .ok inner) {s : Step}
    (hs : s ∈ form.steps) : form.Reaches (.text entryStepId) (.text s.id) := by
  obtain ⟨hsteps, hfinal⟩ := h.reaches_choices hinner (List.Subset.refl _)
    fun c hc => .single (h.leadsTo_target (.inl rfl) hc)
  rcases h.mem_steps_iff.1 hs with rfl | hs | rfl
  · exact .refl
  · exact hsteps s hs
  · exact hfinal (List.cons_ne_nil _ _)

/-- The search from the entry step finds the steps of the form. -/
theorem exists_reachable {inner : Compiled (List Choice)} {t : OptionTree} {ts : List OptionTree}
    (h : form.Arranged settings root inner.result inner.steps)
    (hinner : compileChoices settings firstBranchNumber (t :: ts) = .ok inner)
    (hplain : ∀ f ∈ settings.finalFields, f.choices = []) :
    ∃ reached, form.reachable (.text entryStepId) = .ok reached ∧
      ∀ v, v ∈ reached ↔ v ∈ form.stepIds.map Value.text := by
  have htexts : ∀ v w, form.LeadsTo v w → ∃ s, w = .text s := by
    intro v w hw
    obtain ⟨s, -, hid⟩ := h.has_of_leadsTo hplain hw
    exact ⟨s.id, hid⟩
  obtain ⟨reached, hreached, hiff⟩ := Form.exists_reachable htexts entryStepId
  refine ⟨reached, hreached, fun v => ?_⟩
  rw [hiff]
  constructor
  · intro hv
    rcases hv.cases_tail with rfl | ⟨u, -, hu⟩
    · exact List.mem_map_of_mem (List.mem_map_of_mem h.mem_entry)
    · obtain ⟨s, hs, rfl⟩ := h.has_of_leadsTo hplain hu
      exact List.mem_map_of_mem (List.mem_map_of_mem hs)
  · intro hv
    obtain ⟨i, hi, rfl⟩ := List.mem_map.1 hv
    obtain ⟨s, hs, rfl⟩ := List.mem_map.1 hi
    exact h.reaches_step hinner hs

/-! The steps of a compiled form are in order. -/

/-- A step with one question is in order if the choices of the question lead to steps. -/
theorem checkStep_single {s : Step} {q : Question} (hfields : s.fields = [.mk q []])
    (hconditions : s.conditions = []) (hlast : s.isLast = false) (hfinal : s.id ≠ finalStepId)
    (hfilled : q.choices ≠ []) (hchoices : ∀ c ∈ q.choices, form.Has c.target) :
    checkStep form s = .ok .ok := by
  refine checkStep_ok (fun hid => absurd hid hfinal) hconditions fun before f after heq => ?_
  rw [hfields] at heq
  obtain ⟨rfl, rfl, -⟩ : before = [] ∧ f = .mk q [] ∧ after = [] := by
    cases before <;> simp_all
  exact checkField_ok rfl (fun _ => hfilled) fun c hc => checkChoice_ok (hchoices c hc) (.inr hlast)

/-- The terminal step is in order if the fields given for it ask for no choice under ids of their
own. -/
theorem checkStep_final
    (hids : settings.finalFields.Pairwise fun f g => f.id.agrees g.id = false)
    (hplain : ∀ f ∈ settings.finalFields, f.question.kind.isChoice = false ∧ f.choices = []) :
    checkStep form (finalStep settings) = .ok .ok := by
  refine checkStep_ok (fun _ => rfl) rfl fun before f after heq => ?_
  simp only [finalStep] at heq
  have hf : f ∈ settings.finalFields := by
    rw [heq]
    exact List.mem_append_right _ List.mem_cons_self
  have hnew : f.id.within (before.map Field.id) = false := by
    rw [heq, List.pairwise_append] at hids
    simpa [Value.within] using fun g hg => hids.2.2 g hg f List.mem_cons_self
  refine checkField_ok hnew (fun hchoice => ?_) fun c hc => ?_
  · rw [(hplain f hf).1] at hchoice
    cases hchoice
  · rw [(hplain f hf).2] at hc
    exact absurd hc List.not_mem_nil

/-- The steps of a compiled form are in order. -/
theorem checkStep_of_mem (h : form.Arranged settings root choices branches) (hne : choices ≠ [])
    (hids : settings.finalFields.Pairwise fun f g => f.id.agrees g.id = false)
    (hplain : ∀ f ∈ settings.finalFields, f.question.kind.isChoice = false ∧ f.choices = [])
    {s : Step} (hs : s ∈ form.steps) : checkStep form s = .ok .ok := by
  obtain ⟨high, hlaid⟩ := h.laid
  rcases h.mem_steps_iff.1 hs with rfl | hs | rfl
  · exact checkStep_single rfl rfl rfl (show entryStepId ≠ finalStepId by decide) hne fun c hc =>
      h.has_target (.inl rfl) hc
  · obtain ⟨q, hfields, hconditions, hlast⟩ := hlaid.plain s hs
    have hlead : s.leadChoices = q.choices := by
      rw [Step.leadChoices, hfields]
      rfl
    refine checkStep_single hfields hconditions hlast (h.branch_ids hs).2 ?_ fun c hc => ?_
    · exact hlead ▸ hlaid.filled s hs
    · exact h.has_target (.inr hs) (hlead ▸ hc)
  · exact checkStep_final hids hplain

/-- The choices of the steps' own fields lead to steps of a compiled form. -/
theorem has_of_choice (h : form.Arranged settings root choices branches)
    (hplain : ∀ f ∈ settings.finalFields, f.choices = []) {s : Step} (hs : s ∈ form.steps) {f : Field}
    (hf : f ∈ s.fields) {c : Choice} (hc : c ∈ f.choices) : form.Has c.target := by
  obtain ⟨high, hlaid⟩ := h.laid
  rcases h.mem_steps_iff.1 hs with rfl | hs | rfl
  · rw [entryStep, List.mem_singleton] at hf
    subst hf
    exact h.has_target (.inl rfl) hc
  · obtain ⟨q, hfields, -, -⟩ := hlaid.plain s hs
    rw [hfields, List.mem_singleton] at hf
    refine h.has_target (.inr hs) ?_
    rw [Step.leadChoices, hfields]
    exact hf ▸ hc
  · rw [hplain f hf] at hc
    exact absurd hc List.not_mem_nil

/-- Only the terminal step of a compiled form can have fields inside fields. -/
theorem flat_or_final (h : form.Arranged settings root choices branches) {s : Step}
    (hs : s ∈ form.steps) : (∀ f ∈ s.fields, f.subFields = []) ∨ s = finalStep settings := by
  obtain ⟨high, hlaid⟩ := h.laid
  rcases h.mem_steps_iff.1 hs with rfl | hs | rfl
  · exact .inl (List.forall_mem_singleton.2 rfl)
  · obtain ⟨q, hfields, -, -⟩ := hlaid.plain s hs
    rw [hfields]
    exact .inl (List.forall_mem_singleton.2 rfl)
  · exact .inr rfl

/-- So do the choices of the fields inside them, if those of the terminal step have none. -/
theorem has_of_choice_within (h : form.Arranged settings root choices branches)
    (hplain : ∀ f ∈ Field.deepAll settings.finalFields, f.choices = []) {s : Step}
    (hs : s ∈ form.steps) {f : Field} (hf : f ∈ Field.deepAll s.fields) {c : Choice}
    (hc : c ∈ f.choices) : form.Has c.target := by
  rcases h.flat_or_final hs with hflat | rfl
  · have hown : ∀ g ∈ settings.finalFields, g.choices = [] := fun g hg =>
      hplain g (Field.mem_deepAll.2 ⟨g, hg, .inl rfl⟩)
    rw [Field.deepAll_of_flat hflat] at hf
    exact h.has_of_choice hown hs hf hc
  · rw [hplain f hf] at hc
    exact absurd hc List.not_mem_nil

end Form.Arranged

/-! ### The report on a compiled form -/

/-- **The compiler puts out valid forms.** Whatever the ids of the tree, as long as the fields of
the terminal step ask for no choices and have ids of their own, the check of a compiled form reports
nothing. The ids of its steps are distinct, the branch steps have no reserved id, and one step is the
last. The choices of the steps' own fields lead to steps, and these are all the choices that the check
looks at; if no field inside those of the terminal step has any, all choices lead to steps, at every
depth. The steps are just what the entry step reaches. Only a tree without options becomes a form
without steps. -/
theorem checkForm_of_compile {settings : CompileSettings} {tree : Option OptionTree} {form : Form}
    (hids : settings.finalFields.Pairwise fun f g => f.id.agrees g.id = false)
    (hplain : ∀ f ∈ settings.finalFields, f.question.kind.isChoice = false ∧ f.choices = [])
    (h : compile settings tree = .ok form) :
    checkForm form = .ok { valid := true, errors := [], warnings := [] } ∧
      form.stepIds.Nodup ∧
      (∀ s ∈ form.steps, ∀ f ∈ s.fields, ∀ c ∈ f.choices, form.Has c.target) ∧
      ((∀ f ∈ Field.deepAll settings.finalFields, f.choices = []) →
        ∀ s ∈ form.steps, ∀ f ∈ Field.deepAll s.fields, ∀ c ∈ f.choices, form.Has c.target) ∧
      (form.steps = [] ↔ ∀ t, tree = some t → t.children = []) ∧
      (form.steps ≠ [] →
        (∃ branches, form.stepIds = entryStepId :: branches ++ [finalStepId] ∧
          ∀ i ∈ branches, i ≠ entryStepId ∧ i ≠ finalStepId) ∧
        (∃ last, form.steps.filter (·.isLast) = [last]) ∧
        ∃ reached, form.reachable (.text entryStepId) = .ok reached ∧
          ∀ v, v ∈ reached ↔ v ∈ form.stepIds.map Value.text) := by
  have hchoices : ∀ f ∈ settings.finalFields, f.choices = [] := fun f hf => (hplain f hf).2
  have hempty : ∀ name, checkForm (emptyForm settings name) = .ok .ok := fun _ => rfl
  match tree with
  | none =>
    cases h
    exact ⟨hempty _, .nil, nofun, nofun, by simp [emptyForm], fun hne => absurd rfl hne⟩
  | some (.node root []) =>
    cases h
    exact ⟨hempty _, .nil, nofun, nofun, by simp [emptyForm, OptionTree.children],
      fun hne => absurd rfl hne⟩
  | some (.node root (c :: cs)) =>
    obtain ⟨inner, hinner, harranged⟩ := Form.arranged_of_compile h
    have hd := harranged.nodup_stepIds
    obtain ⟨reached, hreached, hiff⟩ := harranged.exists_reachable hinner hchoices
    have hvalid : checkForm form = .ok .ok := by
      refine checkForm_ok hd (List.mem_map_of_mem harranged.mem_entry) harranged.filter_isLast
        (fun s hs => harranged.checkStep_of_mem (choices_ne_nil hinner) hids hplain hs) hreached
        fun s hs => ?_
      exact (hiff _).2 (List.mem_map_of_mem (List.mem_map_of_mem hs))
    refine ⟨hvalid, hd, fun s hs f hf c hc => harranged.has_of_choice hchoices hs hf hc,
      fun hinside s hs f hf c hc => harranged.has_of_choice_within hinside hs hf hc, ?_, ?_⟩
    · simp [harranged.steps, OptionTree.children]
    · refine fun _ => ⟨⟨inner.steps.map Step.id, ?_, ?_⟩, ⟨_, harranged.filter_isLast⟩, reached,
        hreached, hiff⟩
      · simp [Form.stepIds, harranged.steps, entryStep, finalStep]
      · intro i hi
        obtain ⟨s, hs, rfl⟩ := List.mem_map.1 hi
        exact harranged.branch_ids hs

/-- A tree with ids that repeat, are empty or look like numbers of steps. -/
def tangled : OptionTree :=
  .node { id := "step1", label := "Pick" } [
    .node { id := "", label := "A" } [
      .node { id := "3_", label := "B" } [.node { id := "final", label := "C" } []]],
    .node { id := "3_", label := "A" } [.node { id := "", label := "" } [
      .node { id := "step_final", label := "D" } []],
      .node { id := "1", label := "E" } []]]

theorem checkForm_tangled : ∃ form, compile {} (some tangled) = .ok form ∧
    checkForm form = .ok { valid := true, errors := [], warnings := [] } ∧
    ∀ s ∈ form.steps, ∀ f ∈ Field.deepAll s.fields, ∀ c ∈ f.choices, form.Has c.target := by
  obtain ⟨form, hform⟩ : ∃ form, compile {} (some tangled) = .ok form := ⟨_, by cbv⟩
  obtain ⟨hcheck, -, -, hwithin, -⟩ := checkForm_of_compile (by decide) (by decide) hform
  exact ⟨form, hform, hcheck, hwithin (by decide)⟩

end BranchForm
