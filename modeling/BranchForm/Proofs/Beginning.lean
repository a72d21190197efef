import BranchForm.Proofs.OnForm
import BranchForm.Proofs.Verdict

/-!
# The step on which sessions start

Fresh sessions, and those that are started again, show the entry step. Going back stops at the first
step of the document, and only there is a session told that it is on its first step. The check of a
form asks for an entry step and not for its place, so the two may differ. Then a session is led back
past the step on which it started.

* `Form.WellFormed.exists_entry` : sessions on a form that is in order start on its entry step;
* `Session.retrace_of_first` and `Session.retrace_of_behind` say how going back leaves a step, by its
  place;
* `start_is_first_iff` : the step on which sessions start is the first one to a session, and is not
  left by going back, exactly if the document begins with it; `start_passed` shows a form on which it
  is left.
-/

namespace BranchForm

/-- A form that is in order starts sessions on its entry step. -/
theorem Form.WellFormed.exists_entry {form : Form} (h : form.WellFormed) :
    ∃ first ∈ form.steps, first.id = entryStepId ∧ form.firstStep? = some first := by
  obtain ⟨step, hmem, hid⟩ := List.mem_map.1 h.entry
  have hentry : form.entry? = some step := by
    rw [Form.entry?, ← hid]
    exact Form.step?_of_mem h.distinct hmem
  exact ⟨step, hmem, hid, by rw [Form.firstStep?, hentry]⟩

namespace Session

variable {form : Form} {s : Session} {i : Nat} {before : Step}

/-- On the first step of the document going back stays. -/
theorem retrace_of_first (h : form.indexOf? s.current = some 0) :
    s.retrace form = { session := { s with path := [] }, outcome := .ok .stayed } := by
  simp [retrace, h]

/-- The session after it has gone back to the step visited last, or to another step if none is left.
-/
def wentBack (s : Session) (before : Step) : Session :=
  Session.moveTo { s with history := s.history.dropLast }
    (s.history.getLast?.getD (.text before.id)) .back .null .null false

/-- A step behind another one is left: for the step visited last, or else for the one before it. -/
theorem retrace_of_behind (h : form.indexOf? s.current = some (i + 1))
    (hbefore : form.steps[i]? = some before) :
    s.retrace form = { session := s.wentBack before, outcome := .ok .moved } := by
  cases hlast : s.history.getLast? with
  | some previous => simp [retrace, wentBack, h, hlast]
  | none =>
    have hnil : s.history = [] := List.getLast?_eq_none_iff.1 hlast
    simp [retrace, wentBack, h, hnil, stepIdAt, hbefore, moveTo]

theorem retreat_of_path_nil (h : s.path = []) : s.retreat form = s.retrace form := by
  simp [retreat, shift_of_path_nil h]

/-- On a step of the document, with no nested fields entered, a session is told whether it is on the
first step, and going back stays there or leaves the step, all by the place of the step. -/
theorem retreat_cases (hd : form.stepIds.Nodup) {step : Step} (hmem : step ∈ form.steps)
    (hcurrent : s.current = .text step.id) (hpath : s.path = []) :
    (form.steps.head? = some step ∧ s.isFirst form = true ∧
      s.retreat form = { session := s, outcome := .ok .stayed }) ∨
    (form.steps.head? ≠ some step ∧ s.isFirst form = false ∧ ∃ i before,
      form.steps[i]? = some before ∧ form.steps[i + 1]? = some step ∧
      s.retreat form = { session := s.wentBack before, outcome := .ok .moved }) := by
  obtain ⟨i, hplace⟩ := List.getElem?_of_mem hmem
  have hindex : form.indexOf? s.current = some i := by
    rw [hcurrent]
    exact Form.stepIndex?_of_getElem? hd hplace
  rw [retreat_of_path_nil hpath, List.head?_eq_getElem?]
  cases i with
  | zero =>
    refine .inl ⟨hplace, by simp [isFirst, hindex], ?_⟩
    rw [retrace_of_first hindex, ← hpath]
  | succ i =>
    obtain ⟨hlt, -⟩ := List.getElem?_eq_some_iff.1 hplace
    have hbefore : form.steps[i]? = some form.steps[i] := List.getElem?_eq_getElem (by omega)
    refine .inr ⟨?_, by simp [isFirst, hindex], i, _, hbefore, hplace,
      retrace_of_behind hindex hbefore⟩
    -- the ids are distinct, so the step stands in one place only
    intro hhead
    have hzero := Form.stepIndex?_of_getElem? hd hhead
    rw [Form.stepIndex?_of_getElem? hd hplace] at hzero
    cases hzero

end Session

/-- **When sessions start on the first step.** On a form with steps on which the check reports no
errors, fresh sessions and those started again show the entry step. A session that shows it, with no
nested fields entered, is told that it is on the first step, and is kept by going back as it is,
exactly if the document begins with the entry step. Otherwise the session is told that it is not on
the first step, and going back moves: to the step visited last, or if there is none to the one
before the entry step in the document. -/
theorem start_is_first_iff {form : Form} {report : Report} (hsteps : form.steps ≠ [])
    (hcheck : checkForm form = .ok report) (hnone : report.errors = []) :
    ∃ first ∈ form.steps, first.id = entryStepId ∧
      form.begin none = .ok { current := .text first.id } ∧
      (∀ s : Session, (s.reset form).current = .text first.id) ∧
      ∀ s : Session, s.current = .text first.id → s.path = [] →
        (s.isFirst form = true ↔ form.steps.head? = some first) ∧
        (s.retreat form = { session := s, outcome := .ok .stayed } ↔
          form.steps.head? = some first) ∧
        (form.steps.head? ≠ some first → ∃ i before,
          form.steps[i]? = some before ∧ form.steps[i + 1]? = some first ∧
          s.retreat form = { session := s.wentBack before, outcome := .ok .moved }) := by
  have hdecides := (judges_checkForm hsteps).decides report hcheck
  have hformed : form.WellFormed := hdecides.holds.1 (hdecides.errors.2 hnone)
  obtain ⟨first, hmem, hid, hfirst⟩ := hformed.exists_entry
  refine ⟨first, hmem, hid, by simp [Form.begin, hfirst], fun s => by simp [Session.reset, hfirst],
    ?_⟩
  intro s hcurrent hpath
  rcases Session.retreat_cases hformed.distinct hmem hcurrent hpath with
    ⟨hhead, hisFirst, hstays⟩ | ⟨hhead, hisFirst, i, before, hbefore, hplace, hmoves⟩
  · exact ⟨iff_of_true hisFirst hhead, iff_of_true hstays hhead, fun hne => absurd hhead hne⟩
  · refine ⟨iff_of_false (by simp [hisFirst]) hhead, iff_of_false ?_ hhead,
      fun _ => ⟨i, before, hbefore, hplace, hmoves⟩⟩
    rw [hmoves]
    intro heq
    cases congrArg Reply.outcome heq

/-- A form that is in order, though a step stands before the entry step. -/
def lobby : Form where
  name := "Lobby"
  steps := [
    { id := "street", title := "Street" },
    { id := "step1", title := "Lobby"
      fields := [.mk { id := "way", kind := .radio, label := "Way", choices := [
        { id := "up", label := "Up", value := "up", nextField := "step_final" }] } []] },
    { id := "step_final", title := "Office", isLast := true }]

/-- In the lobby a session is not on its first step, and going back leads to the street. On the same
form without the street it stays. -/
theorem start_is_first_lobby :
    (∃ report, checkForm lobby = .ok report ∧ report.errors = []) ∧
    (∃ s, lobby.begin none = .ok s ∧ s.isFirst lobby = false ∧
      s.retreat lobby = { session := s.wentBack { id := "street", title := "Street" }
                          outcome := .ok .moved }) ∧
    (∃ report, checkForm { lobby with steps := lobby.steps.tail } = .ok report ∧
      report.errors = []) ∧
    ∃ s, Form.begin { lobby with steps := lobby.steps.tail } none = .ok s ∧
      s.retreat { lobby with steps := lobby.steps.tail } =
        { session := s, outcome := .ok .stayed } := by
  have hlobby : ∃ report, checkForm lobby = .ok report ∧ report.errors = [] := ⟨_, by cbv, rfl⟩
  have hshort : ∃ report, checkForm { lobby with steps := lobby.steps.tail } = .ok report ∧
      report.errors = [] := ⟨_, by cbv, rfl⟩
  refine ⟨hlobby, ?_, hshort, ?_⟩
  · obtain ⟨report, hcheck, hnone⟩ := hlobby
    obtain ⟨first, hmem, hid, hbegin, -, hstart⟩ := start_is_first_iff (by decide) hcheck hnone
    obtain ⟨hisFirst, -, hback⟩ := hstart { current := .text first.id } rfl rfl
    have hd : lobby.stepIds.Nodup := by decide
    have hne : lobby.steps.head? ≠ some first := by
      intro hhead
      cases hhead
      exact absurd hid (by decide)
    obtain ⟨i, before, hbefore, hplace, hmoves⟩ := hback hne
    obtain rfl : i = 0 := Nat.succ.inj (Option.some.inj
      ((Form.stepIndex?_of_getElem? hd hplace).symm.trans (hid ▸ rfl)))
    cases hbefore
    exact ⟨_, hbegin, Bool.eq_false_iff.2 (mt hisFirst.1 hne), hmoves⟩
  · obtain ⟨report, hcheck, hnone⟩ := hshort
    obtain ⟨first, hmem, hid, hbegin, -, hstart⟩ := start_is_first_iff (by decide) hcheck hnone
    obtain ⟨-, hstays, -⟩ := hstart { current := .text first.id } rfl rfl
    have hd : (Form.stepIds { lobby with steps := lobby.steps.tail }).Nodup := by decide
    have hhead : first = lobby.steps.tail.head (by decide) :=
      Form.eq_of_id_eq hd hmem (List.head_mem _) hid
    exact ⟨_, hbegin, hstays.2 (hhead ▸ rfl)⟩

/-- A fresh session on a form in which the check finds no errors is led back past the step on which
it started. -/
theorem start_passed :
    ∃ report s, checkForm lobby = .ok report ∧ report.errors = [] ∧ lobby.begin none = .ok s ∧
      s.path = [] ∧ s.isFirst lobby = false ∧ (s.retreat lobby).outcome = .ok .moved ∧
      (s.retreat lobby).session.current ≠ s.current :=
  ⟨_, _, by cbv, rfl, rfl, rfl, rfl, rfl, by decide⟩

end BranchForm
