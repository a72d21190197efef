import BranchForm.Proofs.Paging

/-!
# Going on without answers

Where nothing has been answered, nothing branches: no condition holds, since conditions compare with
texts, and no choice has been picked. So going on pages through the document. It begins with the step
on which sessions start, which need not be the first one, and ends with the first step from there on
that is marked as the last one, or with the last one of the document.

* `Form.EndsAt` tells the places of the document that are not left by going on, `Form.exists_endsAt`
  finds the first of them;
* `Form.answeredTarget_of_unanswered` : without answers none leads anywhere;
* `Session.OnPage` is the invariant: the session shows the step of a place, and nothing has been
  answered. `Session.OnPage.advance` is its step, `Session.OnPage.advances` holds of whole runs;
* `pages_without_answers` is the result.
-/

namespace BranchForm

theorem Condition.holds_nil {c : Condition} (h : c.value ≠ .null) : c.holds [] = false := by
  simp [Condition.holds, Members.getOrNull, Members.getD, Members.get?, Value.agrees, h]

namespace Form

variable {form : Form} {s : Session} {step : Step}

/-! ### Where the document ends -/

/-- The form ends at a place: the step there is marked as the last one, or none stands behind it. -/
def EndsAt (form : Form) (i : Nat) : Prop :=
  ∃ step, form.steps[i]? = some step ∧ (step.isLast = true ∨ i + 1 = form.steps.length)

/-- From every place on there is a first one at which the form ends. -/
theorem exists_endsAt {i : Nat} (hi : i < form.steps.length) :
    ∃ j, i ≤ j ∧ form.EndsAt j ∧ ∀ k, i ≤ k → k < j → ¬ form.EndsAt k := by
  classical
  have hlast : ∃ j, i ≤ j ∧ form.EndsAt j := by
    refine ⟨form.steps.length - 1, by omega, form.steps[form.steps.length - 1], ?_, .inr (by omega)⟩
    exact List.getElem?_eq_getElem (by omega)
  refine ⟨Nat.find hlast, (Nat.find_spec hlast).1, (Nat.find_spec hlast).2, ?_⟩
  intro k hik hk hend
  exact Nat.find_min hlast hk ⟨hik, hend⟩

theorem lt_of_endsAt {i : Nat} (h : form.EndsAt i) : i < form.steps.length := by
  obtain ⟨step, hstep, -⟩ := h
  exact (List.getElem?_eq_some_iff.1 hstep).1

/-! ### Nothing to follow -/

/-- The conditions of the form compare answers with texts. -/
def ComparesTexts (form : Form) : Prop :=
  ∀ step ∈ form.steps, ∀ c ∈ step.conditions, ∃ t, c.value = .text t

/-- Without answers no condition holds and no choice has been picked. -/
theorem answeredTarget_of_unanswered (htexts : form.ComparesTexts) (hstep : step ∈ form.steps)
    (h : s.answers = []) : form.answeredTarget s step = .ok none := by
  have hfired : firedCondition? step [] = none := by
    refine List.find?_eq_none.2 ?_
    intro c hc
    obtain ⟨t, ht⟩ := htexts step hstep c hc
    rw [Condition.holds_nil (by simp [ht])]
    exact Bool.false_ne_true
  have hpicked : step.fields.findSome? (fun f => pickedTarget? f (answersTo [] f)) = none :=
    List.findSome?_eq_none_iff.2 fun _ _ => rfl
  simp only [answeredTarget, h, hfired, hpicked]

end Form

namespace Session

variable {form : Form} {s : Session} {i n : Nat}

/-! ### From page to page -/

/-- The session shows the step of a place, nothing has been answered and no nested fields are
entered. -/
structure OnPage (form : Form) (s : Session) (i : Nat) : Prop where
  /-- The step shown. -/
  current : ∃ step, form.steps[i]? = some step ∧ s.current = .text step.id
  /-- There are no answers. -/
  answers : s.answers = []
  /-- No nested fields are entered. -/
  path : s.path = []
  /-- The form has not been submitted. -/
  completed : s.completed = .bool false

/-- A fresh session shows the step on which sessions start. -/
theorem exists_onPage_of_begin (h : form.begin none = .ok s) :
    ∃ first i, form.firstStep? = some first ∧ form.steps[i]? = some first ∧ s.OnPage form i := by
  obtain ⟨first, hmem, hfirst, rfl⟩ := exists_of_begin h
  obtain ⟨i, hi⟩ := List.getElem?_of_mem hmem
  exact ⟨first, i, hfirst, hi, ⟨first, hi, rfl⟩, rfl, rfl, rfl⟩

namespace OnPage

variable (hd : form.stepIds.Nodup)
include hd

theorem shown (h : s.OnPage form i) : ∃ step, form.steps[i]? = some step ∧
    s.step form = .ok step ∧ form.indexOf? s.current = some i := by
  obtain ⟨step, hplace, hcurrent⟩ := h.current
  refine ⟨step, hplace, ?_, ?_⟩
  · apply step_of_stepOf?
    rw [hcurrent]
    exact Form.step?_of_mem hd (List.mem_of_getElem? hplace)
  · rw [hcurrent]
    exact Form.stepIndex?_of_getElem? hd hplace

/-- Where the form ends, going on submits. -/
theorem submits (h : s.OnPage form i) (hend : form.EndsAt i) :
    s.advance form = { session := { s with completed := .bool true }, outcome := .ok .submit } := by
  obtain ⟨step, hplace, hshown, hindex⟩ := h.shown hd
  obtain ⟨last, hlast, hends⟩ := hend
  obtain rfl : step = last := Option.some.inj (hplace.symm.trans hlast)
  have hendsWith : s.endsWith form step = true := by
    simpa [endsWith, hindex] using hends
  rw [advance_of_path_nil h.path hshown, leave, if_pos hendsWith]

/-- Elsewhere it turns to the next page. -/
theorem advance (htexts : form.ComparesTexts) (h : s.OnPage form i) (hend : ¬ form.EndsAt i) :
    (s.advance form).outcome = .ok .moved ∧ (s.advance form).session.OnPage form (i + 1) := by
  obtain ⟨step, hplace, hshown, hindex⟩ := h.shown hd
  have hendsWith : s.endsWith form step = false := by
    rw [← Bool.not_eq_true]
    intro hends
    exact hend ⟨step, hplace, by simpa [endsWith, hindex] using hends⟩
  have hlt := succ_lt_of_endsWith hindex hendsWith
  have htarget := Form.answeredTarget_of_unanswered htexts (List.mem_of_getElem? hplace) h.answers
  have hleave : s.advance form = { session := s.moveTo (stepIdAt form (i + 1)) .next .null .null true
                                   outcome := .ok .moved } := by
    rw [advance_of_path_nil h.path hshown]
    simp [leave, hendsWith, htarget, hindex]
  rw [hleave]
  refine ⟨rfl, ⟨form.steps[i + 1], List.getElem?_eq_getElem hlt, ?_⟩, h.answers, rfl, h.completed⟩
  simp [moveTo, stepIdAt, hlt]

/-- Going on several times turns as many pages, if the form does not end before. -/
theorem advances (htexts : form.ComparesTexts) (h : s.OnPage form i)
    (hbefore : ∀ k < n, ¬ form.EndsAt (i + k)) : (s.advances form n).OnPage form (i + n) := by
  induction n with
  | zero => exact h
  | succ n ih =>
    have hpage := ih fun k hk => hbefore k (by omega)
    exact (hpage.advance hd htexts (hbefore n (by omega))).2

end OnPage

end Session

/-- **Without answers going on pages through the document once.** On a form whose steps have distinct
ids and whose conditions compare with texts, a fresh session shows the step on which sessions start.
Going on then shows the steps of the document one after the other, each of them once, up to the first
one from there on at which the form ends, and there it submits. So it submits within as many requests
as the form has steps. -/
theorem pages_without_answers {form : Form} {s : Session} (hd : form.stepIds.Nodup)
    (htexts : form.ComparesTexts) (h : form.begin none = .ok s) :
    ∃ first i n, form.firstStep? = some first ∧ form.steps[i]? = some first ∧
      form.EndsAt (i + n) ∧ (∀ k < n, ¬ form.EndsAt (i + k)) ∧
      (List.range (n + 1)).map (fun k => (s.advances form k).current) =
        ((form.stepIds.drop i).take (n + 1)).map .text ∧
      ((List.range (n + 1)).map fun k => (s.advances form k).current).Nodup ∧
      (∀ k < n, ((s.advances form k).advance form).outcome = .ok .moved) ∧
      ((s.advances form n).advance form).outcome = .ok .submit ∧
      (∀ k ≤ n, (s.advances form k).completed = .bool false) ∧
      (s.advances form (n + 1)).completed = .bool true ∧ n + 1 ≤ form.steps.length := by
  obtain ⟨first, i, hfirst, hplace, hpage⟩ := Session.exists_onPage_of_begin h
  obtain ⟨j, hij, hend, hbefore⟩ := Form.exists_endsAt (List.getElem?_eq_some_iff.1 hplace).1
  obtain ⟨n, rfl⟩ := Nat.exists_eq_add_of_le hij
  have hlt := Form.lt_of_endsAt hend
  have hbefore' : ∀ k < n, ¬ form.EndsAt (i + k) := fun k hk => hbefore (i + k) (by omega) (by omega)
  have hpages : ∀ k ≤ n, (s.advances form k).OnPage form (i + k) := fun k hk =>
    hpage.advances hd htexts fun m hm => hbefore' m (by omega)
  have hvisited : (List.range (n + 1)).map (fun k => (s.advances form k).current) =
      ((form.stepIds.drop i).take (n + 1)).map .text := by
    apply List.ext_getElem
    · simp [Form.stepIds]
      omega
    · intro k hk _
      obtain ⟨step, hstep, hcurrent⟩ := (hpages k (by simpa [Nat.lt_succ_iff] using hk)).current
      obtain ⟨hk', rfl⟩ := List.getElem?_eq_some_iff.1 hstep
      simp [hcurrent, Form.stepIds]
  have hsubmit := (hpages n (Nat.le_refl n)).submits hd hend
  refine ⟨first, i, n, hfirst, hplace, hend, hbefore', hvisited, ?_, ?_, ?_, ?_, ?_, by omega⟩
  · rw [hvisited]
    exact ((hd.sublist (List.drop_sublist _ _)).sublist (List.take_sublist _ _)).map
      fun _ _ => Value.text.inj
  · intro k hk
    exact ((hpages k (by omega)).advance hd htexts (hbefore' k hk)).1
  · rw [hsubmit]
  · intro k hk
    exact (hpages k hk).completed
  · rw [Session.advances, hsubmit]

/-- A form in which sessions start on the second step, and which ends on the last but one. A choice
and a condition would lead elsewhere. -/
def brochure : Form where
  name := "Brochure"
  steps := [
    { id := "cover", title := "Cover" },
    { id := "step1", title := "Contents"
      fields := [.mk { id := "chapter", kind := .radio, label := "Chapter", choices := [
        { id := "last", label := "Last", value := "last", nextField := "back" }] } []] },
    { id := "inside", title := "Inside"
      conditions := [{ fieldId := "chapter", value := "", nextStep := "cover" }] },
    { id := "back", title := "Back", isLast := true },
    { id := "insert", title := "Insert" }]

theorem pages_brochure :
    brochure.stepIds.Nodup ∧ brochure.ComparesTexts ∧
      ∃ s, brochure.begin none = .ok s ∧
        (List.range 3).map (fun k => (s.advances brochure k).current) =
          ["step1", "inside", "back"].map .text ∧
        ((s.advances brochure 2).advance brochure).outcome = .ok .submit := by
  have hd : brochure.stepIds.Nodup := by decide
  have htexts : brochure.ComparesTexts := by
    simp [Form.ComparesTexts, brochure]
  have hend : brochure.EndsAt 3 := ⟨_, rfl, .inl rfl⟩
  have hon : ∀ k < 2, ¬ brochure.EndsAt (1 + k) := by
    rintro k hk ⟨step, hstep, hends⟩
    interval_cases k <;> cases hstep <;> simp [brochure] at hends
  obtain ⟨first, i, n, hfirst, hplace, hends, hbefore, hvisited, -, -, hsubmit, -⟩ :=
    pages_without_answers hd htexts rfl
  cases hfirst
  obtain rfl : i = 1 := Option.some.inj ((Form.stepIndex?_of_getElem? hd hplace).symm.trans rfl)
  obtain rfl : n = 2 := by
    rcases Nat.lt_trichotomy n 2 with hlt | heq | hgt
    · exact absurd hends (hon n hlt)
    · exact heq
    · exact absurd hend (hbefore 2 hgt)
  exact ⟨hd, htexts, _, rfl, hvisited, hsubmit⟩

end BranchForm
