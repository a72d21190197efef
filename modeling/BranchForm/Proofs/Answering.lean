import BranchForm.Proofs.AnswerKeys
import BranchForm.Proofs.Checked
import BranchForm.Proofs.OnForm
import BranchForm.Proofs.RoundTrip
import BranchForm.Proofs.Settled

/-!
# Where answers can lead

The check of a form searches for the steps in reach of the entry step, along the targets of
conditions and of the choices of the steps' own fields. A respondent who only answers is moved by the
same targets, whichever of them the answers pick out. So if no field inside another one has choices,
answering leads to no step that the search does not find.

* `Form.Shallow` forms have choices on the steps' own fields only; `Session.own_of_findField` : these
  are the fields whose choices can be picked;
* `Form.leadsTo_of_branchTarget` : an answer leads where the step leads; `Session.current_apply` is
  one answer, `Session.reaches_of_reached` a whole run of them;
* `Form.keys_iff` says which targets put an end to the search;
* `unreachedFlaw` is what the check says of a step out of reach, and `unreached_of_flaw` : it says so
  of no others;
* `answers_stay_reachable` is the result; `reachable_stray` shows a form that cannot be searched.
-/

namespace BranchForm

/-! ### Choices that can be picked -/

/-- No field inside another one has choices. -/
def Form.Shallow (form : Form) : Prop :=
  ∀ s ∈ form.steps, ∀ f ∈ s.fields, ∀ g ∈ Field.deepAll f.subFields, g.choices = []

namespace Session

/-- On a form without choices inside fields, a field of which a choice can be picked is one of the
step itself. -/
theorem own_of_findField {form : Form} (hshallow : form.Shallow) {step : Step}
    (hstep : step ∈ form.steps) {fieldId : Value} {f : Field} (h : findField step fieldId = some f)
    {c : Choice} (hc : c ∈ f.choices) : f ∈ step.fields := by
  obtain ⟨g, hown, hf⟩ := Field.mem_deepAll.1 (of_findField h).1
  rcases hf with rfl | hf
  · exact hown
  · rw [hshallow step hstep g hown f hf] at hc
    cases hc

end Session

/-! ### Targets of a form that was read -/

/-- A choice that is settled has a target or none. -/
theorem Choice.target_of_settle {c : Choice} (h : c.settle = c) :
    c.target = .null ∨ c.target.truthy = true := by
  have hstep : c.nextStep.orElse .null = c.nextStep := congrArg Choice.nextStep h
  have hfield : c.nextField.orElse .null = c.nextField := congrArg Choice.nextField h
  unfold target
  by_cases hs : c.nextStep.truthy = true
  · simp [Value.orElse, hs]
  · by_cases hf : c.nextField.truthy = true
    · simp [Value.orElse, hs, hf]
    · simpa [Value.orElse, hs, hf] using hfield.symm

namespace Form

variable {form : Form} {v : Value}

/-- The choices of the steps' own fields are settled. -/
def SettledChoices (form : Form) : Prop :=
  ∀ s ∈ form.steps, ∀ f ∈ s.fields, ∀ c ∈ f.choices, c.settle = c

theorem settledChoices_of_decode (h : decode v = .ok form) : form.SettledChoices := by
  intro s hs f hf c hc
  obtain ⟨ms, us, -, -, hsteps, -⟩ := decode_inv h
  obtain ⟨u, -, hstep⟩ := exists_of_mapM_ok hsteps s hs
  obtain ⟨ns, ws, -, -, hfields, -⟩ := Step.decode_inv hstep
  obtain ⟨xs, -, x, -, hfield⟩ := Field.decodeElements_inv hfields f hf
  obtain ⟨q, fs⟩ := f
  obtain ⟨os, -, hquestion, -⟩ := Field.decode_inv hfield
  obtain ⟨_, _, _, cs, -, -, -, -, -, hchoices, -⟩ := Question.decode_inv hquestion
  obtain ⟨w, -, hchoice⟩ := exists_of_mapM_ok hchoices c hc
  exact (Choice.settled_of_decode hchoice).2

/-- A target that resolves comes to the place it stands for. -/
theorem eq_place_of_resolve {source target w : Value} (h : form.resolve source target = .ok w) :
    w = form.place target := by
  simp only [resolve] at h
  split at h
  · cases h
    unfold place lastId
    by_cases hfinal : target = .text finalStepId
    · rw [if_pos hfinal, if_pos hfinal]
      cases form.last? with
      | some last => rfl
      | none => exact hfinal
    · rw [if_neg hfinal, if_neg hfinal]
  · cases h

/-- Wherever an answer leads, the step leads, if the choice followed is one of its own fields. -/
theorem leadsTo_of_branchTarget (hd : form.stepIds.Nodup) (hsettled : form.SettledChoices)
    {session : Session} {step : Step} (hstep : step ∈ form.steps) {fieldId w : Value}
    {picked : Option Choice}
    (hpicked : ∀ c, picked = some c → ∃ f ∈ step.fields, c ∈ f.choices)
    (h : form.branchTarget session step fieldId picked = .ok (some w)) :
    form.LeadsTo (.text step.id) w := by
  rw [leadsTo_iff hd hstep]
  unfold branchTarget at h
  split at h
  · rename_i c hfired
    have hmem : c ∈ step.conditions := List.mem_of_find?_eq_some hfired
    exact ⟨_, mem_targets.2 (.inl ⟨c, hmem, rfl⟩), eq_place_of_resolve (resolve_of_map h)⟩
  · cases picked with
    | none => cases h
    | some c =>
      dsimp only at h
      split at h
      · cases h
      · rename_i hnull
        obtain ⟨f, hf, hc⟩ := hpicked c rfl
        have htruthy : c.target.truthy = true :=
          (Choice.target_of_settle (hsettled step hstep f hf c hc)).resolve_left hnull
        exact ⟨_, mem_targets.2 (.inr ⟨f, hf, c, hc, htruthy, rfl⟩),
          eq_place_of_resolve (resolve_of_map h)⟩

/-- What a step leads to can be visited unless a choice of one of its own fields has a list or a
record for its target. -/
theorem keys_iff (hd : form.stepIds.Nodup) (hsettled : form.SettledChoices) {s : Step}
    (hs : s ∈ form.steps) :
    (∀ w, form.LeadsTo (.text s.id) w → w.isKey = true) ↔
      ∀ f ∈ s.fields, ∀ c ∈ f.choices, c.target.isKey = true := by
  simp only [leadsTo_iff hd hs]
  constructor
  · intro hkeys f hf c hc
    rcases Choice.target_of_settle (hsettled s hs f hf c hc) with hnull | htruthy
    · rw [hnull]
      rfl
    · rw [← isKey_place form]
      exact hkeys _ ⟨_, mem_targets.2 (.inr ⟨f, hf, c, hc, htruthy, rfl⟩), rfl⟩
  · rintro hkeys w ⟨target, htarget, rfl⟩
    rw [isKey_place]
    rcases mem_targets.1 htarget with ⟨c, -, rfl⟩ | ⟨f, hf, c, hc, -, rfl⟩
    · rfl
    · exact hkeys f hf c hc

end Form

/-! ### Runs of answers -/

/-- Whether a request answers: it picks a choice, gives a value or enters a field. -/
def Request.isAnswer : Request → Bool
  | .select _ _ | .set _ _ | .enter _ => true
  | .advance | .retreat | .jump _ | .reset => false

namespace Session

variable {form : Form} {s : Session}

/-- What follows an answer on a step stays there or moves where the step leads. -/
theorem current_follow (hd : form.stepIds.Nodup) (hsettled : form.SettledChoices) {step : Step}
    (hstep : s.step form = .ok step) {picked : Option Choice}
    (hpicked : ∀ c, picked = some c → ∃ f ∈ step.fields, c ∈ f.choices) (stored fieldId value : Value)
    (trigger : Trigger) {s' : Session}
    (h : s' = ((s.withAnswer fieldId stored).follow
      (form.branchTarget (s.withAnswer fieldId stored) step fieldId picked) trigger fieldId
      value).session) :
    s'.current = s.current ∨ form.LeadsTo s.current s'.current := by
  obtain ⟨hmem, hcurrent⟩ := of_step hstep
  rcases follow_cases (s.withAnswer fieldId stored)
    (form.branchTarget (s.withAnswer fieldId stored) step fieldId picked) trigger fieldId value with
    ⟨-, hs⟩ | ⟨v, hv, hs⟩
  · rw [h, hs]
    exact .inl rfl
  · rw [h, hs, hcurrent]
    exact .inr (Form.leadsTo_of_branchTarget hd hsettled hmem hpicked hv)

/-- An answer stays on the step or moves where the step leads. -/
theorem current_apply (hd : form.stepIds.Nodup) (hsettled : form.SettledChoices)
    (hshallow : form.Shallow) {r : Request} (hr : r.isAnswer = true) :
    (r.apply form s).current = s.current ∨ form.LeadsTo s.current (r.apply form s).current := by
  cases r with
  | select fieldId value =>
    cases hstep : s.step form with
    | error e => exact .inl (by simp only [Request.apply, select, hstep])
    | ok step =>
      cases hfield : findField step fieldId with
      | none => exact .inl (by simp only [Request.apply, select, hstep, hfield])
      | some f =>
        obtain ⟨stored, hselect, -⟩ := exists_select_picked value hstep hfield
        refine current_follow hd hsettled hstep ?_ stored fieldId value .select
          (congrArg Reply.session hselect)
        intro c hc
        have hchoice : c ∈ f.choices := List.mem_of_find?_eq_some (choice?_of_picked? hc)
        exact ⟨f, own_of_findField hshallow (of_step hstep).1 hfield hchoice, hchoice⟩
  | set fieldId value =>
    simp only [Request.apply, set]
    split
    · split
      · exact .inl rfl
      · rename_i step hstep
        exact current_follow (s := s) hd hsettled hstep (fun c hc => by cases hc) value fieldId value
          .value rfl
    · exact .inl rfl
  | enter fieldId =>
    left
    simp only [Request.apply, enter]
    split
    · rfl
    · split
      · split <;> rfl
      · rfl
  | advance | retreat | jump | reset => cases hr

/-- **Answering follows the targets of steps.** Wherever a run of answers comes to, the step it began
on reaches. -/
theorem reaches_of_reached (hd : form.stepIds.Nodup) (hsettled : form.SettledChoices)
    (hshallow : form.Shallow) {first : Step} (hfirst : form.firstStep? = some first)
    (h : form.Reached Request.isAnswer s) : form.Reaches (.text first.id) s.current := by
  induction h with
  | fresh h =>
    rw [eq_of_begin hfirst h]
    exact .refl
  | next _ hr ih =>
    rcases current_apply hd hsettled hshallow hr with hstays | hleads
    · rwa [hstays]
    · exact ih.tail hleads

end Session

/-! ### What the check says of steps out of reach -/

/-- What the check says of a step that the entry step does not reach. -/
def unreachedFlaw (stepId : String) : Value :=
  s!"Step '{stepId}' is not reachable from '{entryStepId}'"

theorem unreachedFlaw_inj {i j : String} (h : unreachedFlaw i = unreachedFlaw j) : i = j := by
  simpa [unreachedFlaw, toString] using h

section Flaws

variable {form : Form} {s : Step} {r : Report} {i : String}

/-- A text that begins otherwise is not about a step out of reach. -/
theorem not_unreached_of_head {t : String} (h : t.toList.head? ≠ some 'S') :
    unreachedFlaw i ∉ (Report.flaw (.text t)).warnings := by
  intro hmem
  have heq := congrArg (fun u : String => u.toList.head?) (Value.text.inj (List.mem_singleton.1 hmem))
  refine h (heq.symm.trans ?_)
  simp [String.toList_append, toString]

theorem not_unreached_of_checkChoice {c : Choice} (h : checkChoice form s c = .ok r) :
    unreachedFlaw i ∉ r.warnings := by
  unfold checkChoice at h
  split at h
  · cases h
    exact List.not_mem_nil
  · split at h
    · cases h
      exact List.not_mem_nil
    · split at h
      · cases h
      · dsimp only at h
        split at h
        · cases h
          exact List.not_mem_nil
        · split at h
          · cases h
            exact not_unreached_of_head (by simp [String.toList_append, toString])
          · cases h
            exact List.not_mem_nil

theorem not_unreached_of_checkField {seen : List Field} {f : Field}
    (h : checkField form s seen f = .ok r) : unreachedFlaw i ∉ r.warnings := by
  obtain ⟨choices, hchoices, hout⟩ := bind_eq_ok_iff.1 h
  cases hout
  simp only [Report.warnings_merge, List.mem_append, not_or]
  refine ⟨⟨?duplicate, ?unfilled⟩, ?choices⟩
  case duplicate => split <;> exact List.not_mem_nil
  case unfilled =>
    split
    · exact not_unreached_of_head (by simp [String.toList_append, toString])
    · exact List.not_mem_nil
  case choices =>
    intro hmem
    obtain ⟨c, -, q, hq, hw⟩ := warning_of_concatReports hchoices hmem
    exact not_unreached_of_checkChoice hq hw

theorem not_unreached_of_checkStep (h : checkStep form s = .ok r) :
    unreachedFlaw i ∉ r.warnings := by
  obtain ⟨fields, hfields, hout⟩ := bind_eq_ok_iff.1 h
  cases hout
  simp only [Report.warnings_merge, Report.warnings_concat, List.mem_append, List.mem_flatMap,
    List.mem_map, not_or]
  refine ⟨⟨?reserved, ?fields⟩, ?conditions⟩
  case reserved =>
    unfold checkReserved
    split <;> exact List.not_mem_nil
  case fields =>
    intro hmem
    obtain ⟨before, f, -, q, hq, hw⟩ := warning_of_concatWithSeen hfields hmem
    exact not_unreached_of_checkField hq hw
  case conditions =>
    rintro ⟨q, ⟨c, -, rfl⟩, hw⟩
    revert hw
    unfold checkCondition
    split <;> exact List.not_mem_nil

theorem warnings_checkStepIds (seen : List String) (ss : List Step) :
    (checkStepIds seen ss).warnings = [] := by
  induction ss generalizing seen with
  | nil => rfl
  | cons s ss ih =>
    rw [checkStepIds, Report.warnings_merge, ih]
    split <;> rfl

theorem warnings_checkEntry (form : Form) : (checkEntry form).warnings = [] := by
  unfold checkEntry
  split <;> rfl

theorem warnings_checkLast (form : Form) : (checkLast form).warnings = [] := by
  unfold checkLast
  split <;> rfl

theorem unreached_of_checkReach (h : checkReach form = .ok r) (hflaw : unreachedFlaw i ∈ r.warnings) :
    entryStepId ∈ form.stepIds ∧
      ∃ reached, form.reachable entryStepId = .ok reached ∧ .text i ∉ reached := by
  unfold checkReach at h
  split at h
  · rename_i hentry
    obtain ⟨reached, hreached, hout⟩ := bind_eq_ok_iff.1 h
    cases hout
    refine ⟨hentry.1, reached, hreached, ?_⟩
    rw [Report.warnings_concat, List.mem_flatMap] at hflaw
    obtain ⟨q, hq, hw⟩ := hflaw
    obtain ⟨s, -, rfl⟩ := List.mem_map.1 hq
    split at hw
    · cases hw
    · rename_i hout
      have heq : unreachedFlaw i = unreachedFlaw s.id := List.mem_singleton.1 hw
      rwa [unreachedFlaw_inj heq]
  · cases h
    cases hflaw

/-- The check says of no step that it is out of reach unless the search from the entry step does not
find it. -/
theorem unreached_of_flaw (h : checkForm form = .ok r) (hflaw : unreachedFlaw i ∈ r.warnings) :
    entryStepId ∈ form.stepIds ∧
      ∃ reached, form.reachable entryStepId = .ok reached ∧ .text i ∉ reached := by
  unfold checkForm at h
  split at h
  · cases h
    cases hflaw
  · obtain ⟨steps, hsteps, h⟩ := bind_eq_ok_iff.1 h
    obtain ⟨reach, hreach, h⟩ := bind_eq_ok_iff.1 h
    cases h
    rw [Report.warnings_concat, List.mem_flatMap] at hflaw
    obtain ⟨q, hq, hw⟩ := hflaw
    simp only [List.mem_cons, List.not_mem_nil, or_false] at hq
    -- of the five parts of the report only that on reach can say so
    rcases hq with rfl | rfl | rfl | rfl | rfl
    · rw [warnings_checkStepIds] at hw
      cases hw
    · rw [warnings_checkEntry] at hw
      cases hw
    · rw [warnings_checkLast] at hw
      cases hw
    · obtain ⟨s, -, p, hp, hw⟩ := warning_of_concatReports hsteps hw
      exact absurd hw (not_unreached_of_checkStep hp)
    · exact unreached_of_checkReach hreach hw

end Flaws

/-! ### Searching and answering -/

/-- **Answering leads only where the search does.** A form that was read has steps with distinct ids,
and choices on the steps' own fields only. The search from the step a session begins on has a result
unless a choice of a step that it finds has a list or a record for its target, and then ends with the
fault of a value of the wrong kind. Whenever it has a result, no run of answers leaves it. So a step that the check calls out of reach is shown by no run of
answers. -/
theorem answers_stay_reachable {v : Value} {form : Form} {first : Step}
    (hdecode : Form.decode v = .ok form) (hd : form.stepIds.Nodup) (hshallow : form.Shallow)
    (hfirst : form.firstStep? = some first) :
    ((∃ reached, form.reachable (.text first.id) = .ok reached) ↔
      ∀ s ∈ form.steps, form.Reaches (.text first.id) (.text s.id) →
        ∀ f ∈ s.fields, ∀ c ∈ f.choices, c.target.isKey = true) ∧
    ((∃ reached, form.reachable (.text first.id) = .ok reached) ∨
      form.reachable (.text first.id) = .error (.fault .wrongKind)) ∧
    (∀ reached, form.reachable (.text first.id) = .ok reached →
      ∀ s, form.Reached Request.isAnswer s → s.current ∈ reached) ∧
    ∀ report i, checkForm form = .ok report → unreachedFlaw i ∈ report.warnings →
      ∀ s, form.Reached Request.isAnswer s → s.current ≠ .text i := by
  have hsettled := Form.settledChoices_of_decode hdecode
  have hstays : ∀ reached, form.reachable (.text first.id) = .ok reached →
      ∀ s, form.Reached Request.isAnswer s → s.current ∈ reached := by
    intro reached hreached s hs
    have hreaches := Session.reaches_of_reached hd hsettled hshallow hfirst hs
    obtain ⟨step, -, hcurrent⟩ := (Session.onForm_of_reached hs).current
    rw [hcurrent] at hreaches ⊢
    exact (Form.mem_reachable_iff hreached).2 hreaches
  refine ⟨?search, (form.reachable_cases first.id).imp_right And.left, hstays, ?flaw⟩
  case search =>
    rw [Form.reachable_ok_iff]
    constructor
    · intro hkeys s hs hreaches
      exact (Form.keys_iff hd hsettled hs).1 fun w => hkeys _ w hreaches
    · intro htargets u w hreaches hleads
      obtain ⟨i, hi, rfl⟩ := mem_stepIds_of_successors (List.ne_nil_of_mem hleads)
      obtain ⟨s, hs, rfl⟩ := List.mem_map.1 hi
      exact (Form.keys_iff hd hsettled hs).2 (htargets s hs hreaches) w hleads
  case flaw =>
    intro report i hcheck hflaw s hs hcurrent
    obtain ⟨hentry, reached, hreached, hout⟩ := unreached_of_flaw hcheck hflaw
    -- a form with an entry step begins there
    have hbegin : first.id = entryStepId := by
      obtain ⟨e, he, hid⟩ := List.mem_map.1 hentry
      have hfound : form.entry? = some e := by
        rw [Form.entry?, ← hid]
        exact Form.step?_of_mem hd he
      rw [Form.firstStep?, hfound] at hfirst
      rw [← Option.some.inj hfirst, hid]
    rw [← hbegin] at hreached
    exact hout (hcurrent ▸ hstays reached hreached s hs)

/-- No answers to the form made by hand lead to its lost step, of which the check says that it is out
of reach. -/
theorem answers_stay_reachable_handmade :
    Form.decode handmade.encode = .ok handmade ∧ handmade.stepIds.Nodup ∧ handmade.Shallow ∧
      (∃ first, handmade.firstStep? = some first ∧ first.id = "step1") ∧
      (∃ reached, handmade.reachable "step1" = .ok reached ∧
        ∀ s, handmade.Reached Request.isAnswer s → s.current ∈ reached) ∧
      (∃ report, checkForm handmade = .ok report ∧ unreachedFlaw "lost" ∈ report.warnings) ∧
      ∀ s, handmade.Reached Request.isAnswer s → s.current ≠ "lost" := by
  have hdecode : Form.decode handmade.encode = .ok handmade := rfl
  have hd : handmade.stepIds.Nodup := by decide
  have hshallow : handmade.Shallow := by
    simp [Form.Shallow, handmade, Field.subFields, Field.deepAll]
  obtain ⟨first, hfirst, hid⟩ : ∃ first, handmade.firstStep? = some first ∧ first.id = "step1" :=
    ⟨_, rfl, rfl⟩
  obtain ⟨reached, hreached⟩ : ∃ reached, handmade.reachable "step1" = .ok reached := ⟨_, by cbv⟩
  obtain ⟨report, hcheck, hflaw⟩ : ∃ report, checkForm handmade = .ok report ∧
      unreachedFlaw "lost" ∈ report.warnings := ⟨_, by cbv, by decide⟩
  obtain ⟨-, -, hstays, hout⟩ := answers_stay_reachable hdecode hd hshallow hfirst
  rw [hid] at hstays
  exact ⟨hdecode, hd, hshallow, ⟨first, hfirst, hid⟩, ⟨reached, hreached, hstays reached hreached⟩,
    ⟨report, hcheck, hflaw⟩, hout report "lost" hcheck hflaw⟩

/-- A form with a choice that has a list for its target. -/
def stray : Form where
  name := "Stray"
  steps := [
    { id := "step1", title := "Start"
      fields := [.mk { id := "start", kind := .radio, label := "Start", choices := [
        { id := "a", label := "A", value := "a", nextStep := .list ["x"] }] } []] }]

/-- It can be read and answered, but the search for reachable steps fails. -/
theorem reachable_stray :
    Form.decode stray.encode = .ok stray ∧ stray.stepIds.Nodup ∧ stray.Shallow ∧
      (∃ s, stray.begin none = .ok s ∧ s.current = "step1") ∧
      stray.reachable "step1" = .error (.fault .wrongKind) := by
  refine ⟨rfl, by decide, ?_, ⟨_, rfl, rfl⟩, by cbv⟩
  simp [Form.Shallow, stray, Field.subFields, Field.deepAll]

end BranchForm
