import BranchForm.Proofs.OnForm

/-!
# Sessions that are resumed

A session is saved and taken up again later, perhaps on a form that was changed in between. Of what
was saved only the step shown is looked at then. The steps visited are taken as they come, and going
back leads to them. So a resumed session is as safe as a fresh one exactly if the way back from its
step passes steps of the form only, as far as the first step of the document, which going back does
not leave.

* `Session.run` is the session after a run of requests, `Session.Secure` says that no run leads
  astray;
* `Session.wayBack` are the steps that going back shows, from the current one on;
* `Session.Guarded` is the invariant: the way back passes steps of the form. `Session.Guarded.goes`
  is its step, `Session.Guarded.run` holds of whole runs;
* `Session.exists_run_retreat` : going back often enough leaves the nested fields and then the step;
* `secure_iff_wayBack` is the result; `resumed_astray` shows a session that goes astray.
-/

namespace BranchForm

/-- A value at a place of the document names a step. -/
theorem Form.has_of_indexOf? {form : Form} {v : Value} {i : Nat} (h : form.indexOf? v = some i) :
    form.Has v := by
  obtain ⟨step, hget, hv⟩ := Form.getElem?_of_indexOf? h
  exact ⟨step, List.mem_of_getElem? hget, hv⟩

namespace Session

variable {form : Form} {s s' : Session}

/-! ### Runs -/

/-- The session after a run of requests. -/
def run (form : Form) (s : Session) (rs : List Request) : Session :=
  rs.foldl (fun s r => r.apply form s) s

@[simp]
theorem run_nil (form : Form) (s : Session) : s.run form [] = s := rfl

@[simp]
theorem run_cons (form : Form) (s : Session) (r : Request) (rs : List Request) :
    s.run form (r :: rs) = (r.apply form s).run form rs := rfl

theorem run_append (form : Form) (s : Session) (rs more : List Request) :
    s.run form (rs ++ more) = (s.run form rs).run form more :=
  List.foldl_append

/-- Whatever run of requests a respondent makes, the session then shows a step of the form and
answers the next request. Only an answer given under a value that can name no field is refused. -/
def Secure (form : Form) (s : Session) : Prop :=
  ∀ rs : List Request, form.Has (s.run form rs).current ∧
    ∀ r : Request, (∃ outcome, r.outcome form (s.run form rs) = .ok outcome) ∨
      r.isNamed = false ∧ r.outcome form (s.run form rs) = .error (.fault .wrongKind)

/-- On a step of the form a request is answered or names no field. -/
theorem outcome_of_has (h : form.Has s.current) (r : Request) :
    (∃ outcome, r.outcome form s = .ok outcome) ∨
      r.isNamed = false ∧ r.outcome form s = .error (.fault .wrongKind) := by
  by_cases hr : r.isNamed = true
  · exact .inl (exists_outcome_of_has h hr)
  · have hr' : r.isNamed = false := Bool.eq_false_iff.2 hr
    refine .inr ⟨hr', ?_⟩
    cases r with
    | set fieldId value =>
      have hkey : fieldId.isKey = false := hr'
      simp only [Request.outcome, Session.set, hkey, Bool.false_eq_true, ↓reduceIte]
      rfl
    | select | enter | advance | retreat | jump | reset => cases hr'

/-! ### The way back -/

/-- Steps visited, the latest first, up to the first step of the document. -/
def untilFirst (form : Form) (trail : List Value) : List Value :=
  trail.takeWhile fun v => decide (form.indexOf? v ≠ some 0)

theorem untilFirst_of_first {v : Value} (h : form.indexOf? v = some 0) (trail : List Value) :
    untilFirst form (v :: trail) = [] := by
  simp [untilFirst, h]

theorem untilFirst_of_ne {v : Value} (h : form.indexOf? v ≠ some 0) (trail : List Value) :
    untilFirst form (v :: trail) = v :: untilFirst form trail := by
  simp [untilFirst, h]

theorem forall_untilFirst_cons {v : Value} (hv : form.Has v) {trail : List Value}
    (h : ∀ w ∈ untilFirst form trail, form.Has w) :
    ∀ w ∈ untilFirst form (v :: trail), form.Has w := by
  by_cases hfirst : form.indexOf? v = some 0
  · rw [untilFirst_of_first hfirst]
    exact List.forall_mem_nil _
  · rw [untilFirst_of_ne hfirst]
    exact List.forall_mem_cons.2 ⟨hv, h⟩

/-- The step shown is on its own way back, unless it is the first one. -/
theorem has_of_untilFirst_cons {v : Value} {trail : List Value}
    (h : ∀ w ∈ untilFirst form (v :: trail), form.Has w) : form.Has v := by
  by_cases hfirst : form.indexOf? v = some 0
  · exact Form.has_of_indexOf? hfirst
  · rw [untilFirst_of_ne hfirst] at h
    exact h v List.mem_cons_self

/-- What going back shows, from the current step on: this step and those visited before it, the
latest first. It comes to an end before the first step of the document, which is not left by going
back. -/
def wayBack (form : Form) (s : Session) : List Value :=
  untilFirst form (s.current :: s.history.reverse)

/-- A session on a step of the form whose way back passes steps of the form only. -/
structure Guarded (form : Form) (s : Session) : Prop where
  /-- The step shown. -/
  current : form.Has s.current
  /-- The steps on the way back. -/
  wayBack : ∀ v ∈ s.wayBack form, form.Has v

namespace Guarded

theorem steps_ne_nil (h : s.Guarded form) : form.steps ≠ [] := by
  obtain ⟨step, hmem, -⟩ := h.current
  exact List.ne_nil_of_mem hmem

theorem goes (h : s.Guarded form) (hgoes : s.Goes form s') : s'.Guarded form := by
  cases hgoes with
  | stays hcurrent hhistory _ =>
    refine ⟨hcurrent ▸ h.current, ?_⟩
    rw [Session.wayBack, hcurrent, hhistory]
    exact h.wayBack
  | forth v _ _ _ hv _ _ hcurrent hhistory _ =>
    -- the step left behind comes next on the way back, and the old way back follows it
    refine ⟨hcurrent ▸ hv, ?_⟩
    rw [Session.wayBack, hcurrent, hhistory, List.reverse_concat]
    exact forall_untilFirst_cons hv h.wayBack
  | back v hfirst hback hcurrent hhistory _ =>
    have hrest := h.wayBack
    rw [Session.wayBack, untilFirst_of_ne hfirst] at hrest
    obtain ⟨-, hrest⟩ := List.forall_mem_cons.1 hrest
    rcases hback with hlast | ⟨hnil, hv⟩
    · obtain ⟨visited, hvisited⟩ := List.getLast?_eq_some_iff.1 hlast
      rw [hvisited, List.reverse_concat] at hrest
      refine ⟨hcurrent ▸ has_of_untilFirst_cons hrest, ?_⟩
      rw [Session.wayBack, hcurrent, hhistory, hvisited, List.dropLast_concat]
      exact hrest
    · refine ⟨hcurrent ▸ hv, ?_⟩
      rw [Session.wayBack, hcurrent, hhistory, hnil]
      exact forall_untilFirst_cons hv (List.forall_mem_nil _)
  | restart v hv hcurrent hhistory _ =>
    refine ⟨hcurrent ▸ hv, ?_⟩
    rw [Session.wayBack, hcurrent, hhistory]
    exact forall_untilFirst_cons hv (List.forall_mem_nil _)

theorem run (h : s.Guarded form) (rs : List Request) : (s.run form rs).Guarded form := by
  induction rs generalizing s with
  | nil => exact h
  | cons r rs ih => exact ih (h.goes (goes_apply h.steps_ne_nil s r))

theorem secure (h : s.Guarded form) : s.Secure form := by
  intro rs
  have hcurrent := (h.run rs).current
  exact ⟨hcurrent, outcome_of_has hcurrent⟩

end Guarded

/-! ### Going back all the way -/

/-- The place of the field entered last among the fields beside it that can be entered. -/
def entered (step : Step) (path : List Value) : Nat :=
  ((enterable (siblings step path)).findIdx? fun w => decide (some w = path.getLast?)).getD 0

theorem findIdx?_lt_of_neighbour {ids : List Value} {v w : Value}
    (h : neighbour? ids v false = some w) :
    ∃ i j, ids.findIdx? (fun u => decide (u = v)) = some i ∧
      ids.findIdx? (fun u => decide (u = w)) = some j ∧ j < i := by
  unfold neighbour? at h
  split at h
  · cases h
  · rename_i i hi
    by_cases hzero : i = 0
    · simp [hzero] at h
    · simp only [Bool.false_eq_true, ↓reduceIte, hzero] at h
      obtain ⟨hlt, hw⟩ := List.getElem?_eq_some_iff.1 h
      -- the field before is found at its place or at an earlier one
      cases hj : ids.findIdx? fun u => decide (u = w) with
      | none =>
        have hne := List.findIdx?_eq_none_iff.1 hj w (hw ▸ List.getElem_mem hlt)
        simp at hne
      | some j =>
        obtain ⟨hjlt, -, hbefore⟩ := List.findIdx?_eq_some_iff_getElem.1 hj
        refine ⟨i, j, hi, rfl, ?_⟩
        by_contra hle
        have hne := hbefore (i - 1) (by omega)
        simp [hw] at hne

theorem shift_of_getLast? {step : Step} {last : Value} (hstep : s.step form = .ok step)
    (hlast : s.path.getLast? = some last) (forward : Bool) :
    s.shift form forward = match neighbour? (enterable (siblings step s.path)) last forward with
      | some next => .ok ({ s with path := s.path.dropLast ++ [next] }, true)
      | none => .ok ({ s with path := [] }, false) := by
  simp only [shift, hlast, hstep]
  rfl

/-- Going back among nested fields leaves them or comes to an earlier one. -/
theorem shift_back_cases {step : Step} (hstep : s.step form = .ok step) :
    s.shift form false = .ok ({ s with path := [] }, false) ∨
    ∃ path, s.shift form false = .ok ({ s with path }, true) ∧
      entered step path < entered step s.path := by
  cases hlast : s.path.getLast? with
  | none =>
    have hnil : s.path = [] := List.getLast?_eq_none_iff.1 hlast
    refine .inl ?_
    rw [shift_of_path_nil hnil, ← hnil]
  | some last =>
    rw [shift_of_getLast? hstep hlast]
    cases hnext : neighbour? (enterable (siblings step s.path)) last false with
    | none => exact .inl rfl
    | some next =>
      refine .inr ⟨s.path.dropLast ++ [next], rfl, ?_⟩
      obtain ⟨i, j, hi, hj, hlt⟩ := findIdx?_lt_of_neighbour hnext
      have hsiblings : siblings step (s.path.dropLast ++ [next]) = siblings step s.path := by
        rw [siblings, siblings, List.dropLast_concat]
      simp only [entered, hsiblings, hlast, List.getLast?_concat, Option.some.injEq, hi, hj,
        Option.getD_some]
      exact hlt

/-- Going back often enough leaves the nested fields and goes back from the step. -/
theorem exists_run_retreat {step : Step} (hstep : s.step form = .ok step) :
    ∃ n, s.run form (List.replicate n .retreat) =
      (Session.retrace form { s with path := [] }).session := by
  induction hplace : entered step s.path using Nat.strong_induction_on generalizing s with
  | h place ih =>
    rcases shift_back_cases hstep with hleft | ⟨path, hshift, hlt⟩
    · refine ⟨1, ?_⟩
      simp [Request.apply, retreat, hleft]
    · have hstep' : Session.step form { s with path } = .ok step := hstep
      obtain ⟨n, hn⟩ := ih _ (hplace ▸ hlt) hstep' rfl
      refine ⟨n + 1, ?_⟩
      simp only [List.replicate_succ, run_cons, Request.apply, retreat, hshift]
      exact hn

theorem retrace_of_history (hcurrent : form.Has s.current)
    (hfirst : form.indexOf? s.current ≠ some 0) {visited : List Value} {v : Value}
    (hvisited : s.history = visited ++ [v]) :
    (s.retrace form).session.current = v ∧ (s.retrace form).session.history = visited := by
  obtain ⟨i, hi⟩ := Form.exists_indexOf?_of_has hcurrent
  cases i with
  | zero => exact absurd hi hfirst
  | succ i => simp [retrace, hi, hvisited, moveTo]

/-- A session from which going back alone never leaves the form has a way back through the form. -/
theorem forall_wayBack_of_retreats
    (h : ∀ n, form.Has (s.run form (List.replicate n .retreat)).current) :
    ∀ v ∈ s.wayBack form, form.Has v := by
  induction hlength : s.history.length generalizing s with
  | zero =>
    have hnil : s.history = [] := List.length_eq_zero_iff.1 hlength
    rw [wayBack, hnil]
    exact forall_untilFirst_cons (h 0) (List.forall_mem_nil _)
  | succ count ih =>
    by_cases hfirst : form.indexOf? s.current = some 0
    · rw [wayBack, untilFirst_of_first hfirst]
      exact List.forall_mem_nil _
    · have hcurrent : form.Has s.current := h 0
      obtain ⟨step, hstep⟩ := exists_step_of_has hcurrent
      have hne : s.history ≠ [] := List.ne_nil_of_length_eq_add_one hlength
      have hvisited := (List.dropLast_concat_getLast hne).symm
      obtain ⟨n, hn⟩ := exists_run_retreat hstep
      obtain ⟨hback, hrest⟩ :=
        retrace_of_history (s := { s with path := [] }) hcurrent hfirst hvisited
      -- from the step visited last the rest of the way back is the same, and shorter
      have hway := ih (s := (Session.retrace form { s with path := [] }).session)
        (fun m => by
          have hm := h (n + m)
          rwa [List.replicate_add, run_append, hn] at hm)
        (by rw [hrest, List.length_dropLast, hlength, Nat.add_sub_cancel])
      rw [wayBack, hback, hrest] at hway
      rw [wayBack, hvisited, List.reverse_concat]
      exact forall_untilFirst_cons hcurrent hway

/-- A session that is begun or resumed shows a step of its form. -/
theorem has_of_begin {saved : Option Session} (h : form.begin saved = .ok s) :
    form.Has s.current := by
  cases saved with
  | none => exact (onForm_of_begin h).current
  | some restored =>
    simp only [Form.begin] at h
    split at h
    · cases h
    · split at h
      · rename_i step hstep
        cases h
        exact Form.has_of_stepOf? hstep
      · cases h

end Session

/-- **When a resumed session is as safe as a fresh one.** A session that was begun or resumed stays
on its form whatever is asked for, exactly if the way back from its step passes steps of the form
only. Going back is the one request that can lead astray: if going back alone never does, no run
does. -/
theorem secure_iff_wayBack {form : Form} {saved : Option Session} {s : Session}
    (h : form.begin saved = .ok s) :
    (s.Secure form ↔ ∀ v ∈ s.wayBack form, form.Has v) ∧
    (s.Secure form ↔ ∀ n, form.Has (s.run form (List.replicate n .retreat)).current) := by
  have hguarded : (∀ v ∈ s.wayBack form, form.Has v) → s.Secure form := fun hback =>
    Session.Guarded.secure ⟨Session.has_of_begin h, hback⟩
  have hretreats : s.Secure form →
      ∀ n, form.Has (s.run form (List.replicate n .retreat)).current :=
    fun hsecure n => (hsecure _).1
  have hback : (∀ n, form.Has (s.run form (List.replicate n .retreat)).current) →
      ∀ v ∈ s.wayBack form, form.Has v := Session.forall_wayBack_of_retreats
  exact ⟨⟨fun hsecure => hback (hretreats hsecure), hguarded⟩,
    hretreats, fun hn => hguarded (hback hn)⟩

/-- A form of two steps, which had a third one once. -/
def tour : Form :=
  { name := "Tour"
    steps := [
      { id := "step1", title := "Tour"
        fields := [.mk { id := "main_selection", kind := .radio, label := "Where", choices := [
          { id := "sea", label := "Sea", value := "sea", nextField := "step_final" }] } []] },
      { id := "step_final", title := "Done", isLast := true
        fields := [.mk { id := "name", kind := .text, label := "Name" } []] }] }

/-- What was saved on the last step of the form, with the steps visited before. -/
def tourRecord (visited : List Value) : Value :=
  .record [("current_step_id", "step_final"), ("history", .list visited)]

/-- The session that was saved. -/
def tourSession (visited : List Value) : Session := { current := "step_final", history := visited }

theorem begin_tour (visited : List Value) :
    Session.decode (tourRecord visited) = .ok (tourSession visited) ∧
      tour.begin (some (tourSession visited)) = .ok (tourSession visited) :=
  ⟨rfl, rfl⟩

theorem not_has_hills : ¬ tour.Has "step2_hills" := by
  simp [Form.Has, tour]

/-- The lost step was visited before the first one, so going back does not come to it. -/
theorem secure_tour :
    tour.begin (some (tourSession ["step2_hills", "step1"])) =
        .ok (tourSession ["step2_hills", "step1"]) ∧
      ¬ tour.Has "step2_hills" ∧ (tourSession ["step2_hills", "step1"]).Secure tour := by
  have hbegin := (begin_tour ["step2_hills", "step1"]).2
  refine ⟨hbegin, not_has_hills, (secure_iff_wayBack hbegin).1.2 ?_⟩
  have hway : (tourSession ["step2_hills", "step1"]).wayBack tour =
      [.text "step_final"] := by decide
  rw [hway, List.forall_mem_singleton]
  exact Session.has_of_begin hbegin

/-- The lost step was visited last: the session is resumed, going back comes to that step, and from
then on requests are refused. -/
theorem resumed_astray :
    Session.decode (tourRecord ["step1", "step2_hills"]) =
        .ok (tourSession ["step1", "step2_hills"]) ∧
      tour.begin (some (tourSession ["step1", "step2_hills"])) =
        .ok (tourSession ["step1", "step2_hills"]) ∧
      Request.outcome tour (tourSession ["step1", "step2_hills"]) .retreat = .ok (some .moved) ∧
      Request.outcome tour ((tourSession ["step1", "step2_hills"]).run tour [.retreat]) .advance =
        .error (.unknownStep "Tour" "step2_hills") ∧
      ¬ (tourSession ["step1", "step2_hills"]).Secure tour := by
  obtain ⟨hdecode, hbegin⟩ := begin_tour ["step1", "step2_hills"]
  refine ⟨hdecode, hbegin, rfl, rfl, fun hsecure => ?_⟩
  exact not_has_hills (hsecure [.retreat]).1

end BranchForm
