import BranchForm.Proofs.Requests
import Mathlib

/-!
# Staying on the form

Whatever a respondent asks for, and whatever the form says, a session shows a step of its form.

* `Session.OnForm` is the invariant: the step shown, the steps visited and both ends of every logged
  move are steps of the form. `Session.OnForm.goes` is its step, `Session.onForm_of_reached` holds
  of whole runs;
* `Session.exists_outcome_of_has` : on a step of the form every request is answered;
* `Session.Flat` is the stronger invariant of runs that never enter nested fields;
* `stays_on_form` : all this from a fresh session, with the place of the step in the document.
-/

namespace BranchForm

namespace Session

variable {form : Form} {s : Session}

/-- A session that shows a step of the form, and has visited and logged steps of the form only. -/
structure OnForm (form : Form) (s : Session) : Prop where
  /-- The step shown. -/
  current : form.Has s.current
  /-- The steps visited. -/
  history : ∀ v ∈ s.history, form.Has v
  /-- The moves made. -/
  log : ∀ t ∈ s.transitions, form.Has t.source ∧ form.Has t.target

namespace OnForm

theorem steps_ne_nil (h : s.OnForm form) : form.steps ≠ [] := by
  obtain ⟨step, hmem, -⟩ := h.current
  exact List.ne_nil_of_mem hmem

/-- One more move between steps of the form. -/
theorem log_concat (h : s.OnForm form) {t : Transition} (hsource : t.source = s.current)
    (htarget : form.Has t.target) :
    ∀ u ∈ s.transitions ++ [t], form.Has u.source ∧ form.Has u.target := by
  intro u hu
  rcases List.mem_append.1 hu with hu | hu
  · exact h.log u hu
  · rw [List.mem_singleton.1 hu]
    exact ⟨hsource ▸ h.current, htarget⟩

theorem goes (h : s.OnForm form) {s' : Session} (hgoes : s.Goes form s') : s'.OnForm form := by
  cases hgoes with
  | stays hcurrent hhistory htransitions =>
    exact ⟨hcurrent ▸ h.current, hhistory ▸ h.history, htransitions ▸ h.log⟩
  | forth v trigger fieldId value hv _ _ hcurrent hhistory htransitions =>
    refine ⟨hcurrent ▸ hv, ?_, htransitions ▸ h.log_concat rfl hv⟩
    intro w hw
    rw [hhistory] at hw
    rcases List.mem_append.1 hw with hw | hw
    · exact h.history w hw
    · exact List.mem_singleton.1 hw ▸ h.current
  | back v _ hback hcurrent hhistory htransitions =>
    -- the step visited last is taken from the history unchecked, which holds steps of the form only
    have hv : form.Has v := by
      rcases hback with hlast | ⟨-, hv⟩
      · exact h.history v (List.mem_of_getLast? hlast)
      · exact hv
    refine ⟨hcurrent ▸ hv, ?_, htransitions ▸ h.log_concat rfl hv⟩
    intro w hw
    rw [hhistory] at hw
    exact h.history w (List.dropLast_subset _ hw)
  | restart v hv hcurrent hhistory htransitions =>
    refine ⟨hcurrent ▸ hv, ?_, htransitions ▸ h.log_concat rfl hv⟩
    rw [hhistory]
    exact nofun

theorem apply (h : s.OnForm form) (r : Request) : (r.apply form s).OnForm form :=
  h.goes (goes_apply h.steps_ne_nil s r)

end OnForm

theorem onForm_of_begin (h : form.begin none = .ok s) : s.OnForm form := by
  obtain ⟨first, hmem, -, rfl⟩ := exists_of_begin h
  exact ⟨⟨first, hmem, rfl⟩, List.forall_mem_nil _, List.forall_mem_nil _⟩

/-- A run of any requests stays on the form. -/
theorem onForm_of_reached {allowed : Request → Bool} (h : form.Reached allowed s) :
    s.OnForm form := by
  induction h with
  | fresh h => exact onForm_of_begin h
  | next _ _ ih => exact ih.apply _

/-! ### Every request is answered -/

/-- On a step of the form every request is answered. -/
theorem exists_outcome_of_has (h : form.Has s.current) {r : Request} (hr : r.isNamed = true) :
    ∃ outcome, r.outcome form s = .ok outcome :=
  (comes_apply form s r).exists_ok h hr

theorem OnForm.exists_outcome (h : s.OnForm form) {r : Request} (hr : r.isNamed = true) :
    ∃ outcome, r.outcome form s = .ok outcome :=
  exists_outcome_of_has h.current hr

/-! ### Runs that enter no nested fields -/

/-- A session on the form that has entered no nested fields. -/
structure Flat (form : Form) (s : Session) : Prop extends s.OnForm form where
  /-- No field is entered. -/
  path : s.path = []

/-- A request that picks a choice or goes from step to step enters no nested fields. -/
theorem Comes.path_eq_nil {r : Request} {o : Except Error (Option Outcome)} {s' : Session}
    (h : s.Comes form r o s') (hr : r.isMove = true) (hpath : s.path = []) : s'.path = [] := by
  cases h with
  | fails | stays => exact hpath
  | forth | submits | halts | back => rfl
  | shifts _ _ hne => exact absurd hpath hne
  | enters | restarts => cases hr

theorem Flat.apply (h : s.Flat form) {r : Request} (hr : r.isMove = true) :
    (r.apply form s).Flat form :=
  ⟨h.toOnForm.apply r, (comes_apply form s r).path_eq_nil hr h.path⟩

theorem Flat.advance (h : s.Flat form) : (s.advance form).session.Flat form :=
  Flat.apply (r := .advance) h rfl

/-- A run that picks choices and goes from step to step enters no nested fields. -/
theorem flat_of_reached (h : form.Reached Request.isMove s) : s.Flat form := by
  induction h with
  | fresh h =>
    obtain ⟨first, -, -, hs⟩ := exists_of_begin h
    exact ⟨onForm_of_begin h, by rw [hs]⟩
  | next _ hr ih => exact ih.apply hr

end Session

/-- **A session never leaves its form.** On a form with steps there is a fresh session. After every
run of requests the next request is answered; the step shown, the steps visited and both ends of
every logged move are steps of the form; and the step shown has a place in the document, which is
not the last one if going on would follow the document. -/
theorem stays_on_form {form : Form} (hsteps : form.steps ≠ []) :
    (∃ s, form.begin none = .ok s) ∧
    ∀ s, form.Reached Request.isNamed s →
      (∀ r : Request, r.isNamed = true → ∃ outcome, r.outcome form s = .ok outcome) ∧
      form.Has s.current ∧ (∀ v ∈ s.history, form.Has v) ∧
      (∀ t ∈ s.transitions, form.Has t.source ∧ form.Has t.target) ∧
      ∃ i < form.steps.length, form.indexOf? s.current = some i ∧
        s.progress form = (i + 1, form.steps.length) ∧
        ∀ step, s.step form = .ok step → s.endsWith form step = false →
          i + 1 < form.steps.length := by
  constructor
  · obtain ⟨first, hfirst, -⟩ := Session.exists_firstStep? hsteps
    exact ⟨{ current := .text first.id }, by simp [Form.begin, hfirst]⟩
  · intro s hs
    have h := Session.onForm_of_reached hs
    obtain ⟨i, hindex⟩ := Form.exists_indexOf?_of_has h.current
    have hlt := Form.lt_of_indexOf? hindex
    refine ⟨fun r => h.exists_outcome, h.current, h.history, h.log, i, hlt, hindex, ?_, ?_⟩
    · simp [Session.progress, hindex]
    · exact fun step _ hend => Session.succ_lt_of_endsWith hindex hend

/-- A form made by hand: an id given twice, targets and conditions that lead nowhere or round in a
circle, and nested fields that can be entered. -/
def labyrinth : Form :=
  { name := "Labyrinth"
    steps := [
      { id := "hall", title := "Hall"
        fields := [.mk { id := "door", kind := .radio, label := "Door", choices := [
            { id := "a", label := "A", value := "a", nextField := "nowhere" },
            { id := "b", label := "B", value := "b", nextField := "cellar" }] }
          [.mk { id := "lock", kind := .text, label := "Lock" } []]] },
      { id := "cellar", title := "Cellar"
        conditions := [{ fieldId := "door", value := "b", nextStep := "hall" }] },
      { id := "hall", title := "Hall again", isLast := true }] }

/-- The door is entered and opened, the cellar leads back, and the walk goes round. -/
def labyrinthRun : List Request :=
  [.enter "door", .select "door" "b", .set "lock" (.list []), .retreat, .advance,
    .select "door" "a", .jump "nowhere", .retreat]

/-- The session after the run. -/
def labyrinthSession : Session :=
  labyrinthRun.foldl (fun s r => r.apply labyrinth s) { current := "hall" }

theorem stays_on_labyrinth :
    labyrinth.steps ≠ [] ∧ labyrinth.Reached Request.isNamed labyrinthSession ∧
      (∀ r : Request, r.isNamed = true →
        ∃ outcome, r.outcome labyrinth labyrinthSession = .ok outcome) ∧
      labyrinth.Has labyrinthSession.current ∧
      labyrinthSession.history = [.text "hall", .text "cellar"] ∧
      ∀ v ∈ labyrinthSession.history, labyrinth.Has v := by
  have hsteps : labyrinth.steps ≠ [] := List.cons_ne_nil _ _
  have hreached : labyrinth.Reached Request.isNamed labyrinthSession :=
    Form.Reached.run (.fresh rfl) (by decide)
  obtain ⟨houtcome, hcurrent, hhistory, -⟩ := (stays_on_form hsteps).2 labyrinthSession hreached
  exact ⟨hsteps, hreached, houtcome, hcurrent, by cbv, hhistory⟩

end BranchForm
