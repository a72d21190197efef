import BranchForm.Proofs.Resumed
import BranchForm.Proofs.Retrace

/-!
# Going back over the steps visited

Picking, answering, going on and going to a step all leave the same trace: if they move, the step
left behind is put on top of the history. Going back takes it off again. So however a respondent came
forward, and however often through the same steps, going back as often shows the same steps the other
way round. Only the first step of the document is not left by going back.

* `Request.isForward` tells the requests that lead forward, `Session.route` are the steps that a run
  of them moves to;
* `Session.Comes.forward` : such a request makes the trail longer by the step that it moves to, or
  leaves it; `Session.trail_run` : a run makes it longer by its route;
* `Session.exists_place_of_route` : on a route that spares the first step of the document every step
  can be left by going back;
* `retreats_of_route` is the result.
-/

namespace BranchForm

/-- Whether a request picks a choice, gives an answer, goes on or goes to a step. -/
def Request.isForward : Request → Bool
  | .select _ _ | .set _ _ | .advance | .jump _ => true
  | .enter _ | .retreat | .reset => false

namespace Session

variable {form : Form} {s s' : Session}

/-- The steps that a run of requests moves to, one after the other. -/
def route (form : Form) : Session → List Request → List Value
  | _, [] => []
  | s, r :: rs =>
    let s' := r.apply form s
    match r.outcome form s with
    | .ok (some .moved) => s'.current :: s'.route form rs
    | _ => s'.route form rs

/-! ### Going forward -/

/-- As long as no nested fields are entered, a request that leads forward moves and puts the step
left behind on the trail, or it leaves the trail as it was. -/
theorem Comes.forward {r : Request} {o : Except Error (Option Outcome)} (h : s.Comes form r o s')
    (hr : r.isForward = true) (hpath : s.path = []) :
    s'.path = [] ∧
      ((o = .ok (some .moved) ∧ form.Has s'.current ∧
          s'.standing.trail = s.standing.trail ++ [s'.current]) ∨
        (o ≠ .ok (some .moved) ∧ s'.standing.trail = s.standing.trail)) := by
  cases h with
  | fails | stays => exact ⟨hpath, .inr ⟨nofun, rfl⟩⟩
  | forth _ _ _ hv => exact ⟨rfl, .inl ⟨rfl, hv, rfl⟩⟩
  | submits => exact ⟨rfl, .inr ⟨nofun, rfl⟩⟩
  | shifts _ _ hne => exact absurd hpath hne
  | enters | halts | back | restarts => cases hr

theorem route_cons_of_moved {r : Request} (rs : List Request)
    (h : r.outcome form s = .ok (some .moved)) :
    s.route form (r :: rs) = (r.apply form s).current :: (r.apply form s).route form rs := by
  simp only [route, h]

theorem route_cons_of_ne {r : Request} (rs : List Request)
    (h : r.outcome form s ≠ .ok (some .moved)) :
    s.route form (r :: rs) = (r.apply form s).route form rs := by
  simp only [route]

/-- A run of such requests makes the trail longer by its route, which stays on the form. -/
theorem trail_run {rs : List Request} (hpath : s.path = [])
    (hrs : ∀ r ∈ rs, r.isForward = true) :
    (s.run form rs).path = [] ∧
      (s.run form rs).standing.trail = s.standing.trail ++ s.route form rs ∧
      ∀ v ∈ s.route form rs, form.Has v := by
  induction rs generalizing s with
  | nil => exact ⟨hpath, (List.append_nil _).symm, List.forall_mem_nil _⟩
  | cons r rs ih =>
    obtain ⟨hr, hrs⟩ := List.forall_mem_cons.1 hrs
    obtain ⟨hpath', hcases⟩ := (comes_apply form s r).forward hr hpath
    obtain ⟨hend, htrail, hhas⟩ := ih hpath' hrs
    refine ⟨hend, ?_⟩
    rcases hcases with ⟨hmoved, hv, hlonger⟩ | ⟨hne, hsame⟩
    · rw [route_cons_of_moved rs hmoved, run_cons, htrail, hlonger, List.append_assoc]
      exact ⟨rfl, List.forall_mem_cons.2 ⟨hv, hhas⟩⟩
    · rw [route_cons_of_ne rs hne, run_cons, htrail, hsame]
      exact ⟨rfl, hhas⟩

/-! ### Going back -/

/-- A step of the form that does not go by the id of its first step has a place behind it. -/
theorem exists_place_of_ne_first {v : Value} (hv : form.Has v)
    (hfirst : ∀ first ∈ form.steps.head?, v ≠ .text first.id) :
    ∃ j, form.indexOf? v = some (j + 1) := by
  obtain ⟨i, hi⟩ := Form.exists_indexOf?_of_has hv
  cases i with
  | succ j => exact ⟨j, hi⟩
  | zero =>
    obtain ⟨step, hstep, hid⟩ := Form.getElem?_of_indexOf? hi
    exact absurd hid (hfirst step (List.head?_eq_getElem? ▸ hstep))

section Route

variable {rs : List Request} (hpath : s.path = []) (hrs : ∀ r ∈ rs, r.isForward = true)
include hpath hrs

/-- On a route that spares the first step of the document every step has a place behind it. -/
theorem exists_place_of_route (hfirst : ∀ first ∈ form.steps.head?, .text first.id ∉ s.route form rs)
    {i : Nat} (hi : s.history.length ≤ i)
    (hlt : i + 1 < (s.standing.trail ++ s.route form rs).length) :
    ∃ j, form.indexOf? (s.standing.trail ++ s.route form rs)[i + 1] = some (j + 1) := by
  have hlength := s.length_trail
  have hmem : (s.standing.trail ++ s.route form rs)[i + 1] ∈ s.route form rs := by
    rw [List.getElem_append_right (by omega)]
    exact List.getElem_mem _
  exact exists_place_of_ne_first ((trail_run hpath hrs).2.2 _ hmem)
    fun first hhead heq => hfirst first hhead (heq ▸ hmem)

/-- Going back after a run stands at the places of the trail, one after the other, as far as the
step from which the run began. -/
theorem standsAt_retreats (hfirst : ∀ first ∈ form.steps.head?, .text first.id ∉ s.route form rs)
    {m : Nat} (hm : m ≤ (s.route form rs).length) :
    ((s.run form rs).retreats form m).StandsAt (s.standing.trail ++ s.route form rs)
      (s.run form rs).answers (s.history.length + (s.route form rs).length - m) := by
  obtain ⟨hend, htrail, -⟩ := @trail_run form s rs hpath hrs
  have hlength : (s.standing.trail ++ s.route form rs).length =
      s.history.length + (s.route form rs).length + 1 := by
    rw [List.length_append, length_trail]
    omega
  have hstands : (s.run form rs).StandsAt (s.standing.trail ++ s.route form rs)
      (s.run form rs).answers (s.history.length + (s.route form rs).length) :=
    ⟨hend, rfl, by rw [htrail, List.take_of_length_le (by omega)]⟩
  exact hstands.retreats (by omega) (by omega) fun i hi hlt =>
    exists_place_of_route hpath hrs hfirst (by omega) hlt

/-- So it shows the steps of the route the other way round. -/
theorem map_current_retreats
    (hfirst : ∀ first ∈ form.steps.head?, .text first.id ∉ s.route form rs) :
    (List.range ((s.route form rs).length + 1)).map
        (fun m => ((s.run form rs).retreats form m).current) =
      (s.current :: s.route form rs).reverse := by
  have hwalk : s.standing.trail ++ s.route form rs =
      s.history ++ (s.current :: s.route form rs) := by
    simp [standing, Standing.trail]
  apply List.ext_getElem
  · simp
  · intro m hm _
    have hle : m ≤ (s.route form rs).length := by
      simp only [List.length_map, List.length_range] at hm
      omega
    have hstands := standsAt_retreats hpath hrs hfirst hle
    rw [hwalk] at hstands
    have hlt : s.history.length + (s.route form rs).length - m <
        (s.history ++ (s.current :: s.route form rs)).length := by
      simp only [List.length_append, List.length_cons]
      omega
    obtain ⟨-, hcurrent⟩ := hstands.history_eq hlt
    rw [List.getElem_map, List.getElem_range, hcurrent, List.getElem_reverse,
      List.getElem_append_right (by omega)]
    congr 1
    simp only [List.length_cons]
    omega

end Route

end Session

/-- **Going back is a stack.** From a session that shows no nested fields, a respondent picks,
answers, goes on and goes to steps, in any order and as often as wanted. If this moves to `k` steps,
none of them the first one of the document, then going back `k` times moves every time and shows the
same steps the other way round, down to the step where it began. The steps visited are then those
visited before, and all along the answers stay. -/
theorem retreats_of_route {form : Form} {s s' : Session} {rs : List Request} {k : Nat}
    (hpath : s.path = []) (hrs : ∀ r ∈ rs, r.isForward = true) (hs' : s' = s.run form rs)
    (hk : k = (s.route form rs).length)
    (hfirst : ∀ first ∈ form.steps.head?, .text first.id ∉ s.route form rs) :
    (∀ m < k, ((s'.retreats form m).retreat form).outcome = .ok .moved) ∧
      (List.range (k + 1)).map (fun m => (s'.retreats form m).current) =
        (s.current :: s.route form rs).reverse ∧
      (s'.retreats form k).history = s.history ∧
      ∀ m ≤ k, (s'.retreats form m).answers = s'.answers := by
  subst hs' hk
  have hlength : (s.standing.trail ++ s.route form rs).length =
      s.history.length + (s.route form rs).length + 1 := by
    rw [List.length_append, Session.length_trail]
    omega
  have hback := fun m hm => Session.standsAt_retreats hpath hrs hfirst (m := m) hm
  refine ⟨fun m hm => ?_, Session.map_current_retreats hpath hrs hfirst, ?_,
    fun m hm => (hback m hm).answers⟩
  · have hstands := hback m (by omega)
    rw [show s.history.length + (s.route form rs).length - m =
      s.history.length + (s.route form rs).length - (m + 1) + 1 by omega] at hstands
    exact (hstands.retreat (by omega)
      (Session.exists_place_of_route hpath hrs hfirst (by omega) _)).1
  · obtain ⟨hhistory, -⟩ := (hback _ (Nat.le_refl _)).history_eq (by omega)
    rw [hhistory, Nat.add_sub_cancel]
    simp [Session.standing, Standing.trail]

/-- From the vehicles, visited before, to the end by the bike, to the car and to the end once more,
where the form is submitted, and back to the vehicles by their id. A choice that is not there and an
answer in between lead nowhere. -/
def fleetWander : List Request :=
  [.select "vehicles_selection" "bike", .jump "step3_car", .select "car_selection" "coupe",
    .set "car_selection" "sedan", .advance, .advance, .jump "step2_vehicles"]

theorem retreats_fleetWander :
    fleetSession.path = [] ∧ (∀ r ∈ fleetWander, r.isForward = true) ∧
      fleetSession.route fleetForm fleetWander =
        ["step_final", "step3_car", "step_final", "step2_vehicles"].map .text ∧
      (∀ first ∈ fleetForm.steps.head?,
        .text first.id ∉ fleetSession.route fleetForm fleetWander) ∧
      (List.range 5).map (fun m => ((fleetSession.run fleetForm fleetWander).retreats fleetForm
          m).current) =
        ["step2_vehicles", "step_final", "step3_car", "step_final", "step2_vehicles"].map .text ∧
      ((fleetSession.run fleetForm fleetWander).retreats fleetForm 4).history = ["step1"] := by
  have hroute : fleetSession.route fleetForm fleetWander =
      ["step_final", "step3_car", "step_final", "step2_vehicles"].map .text := by decide +kernel
  have hstart : fleetSession.standing = ⟨"step2_vehicles", ["step1"]⟩ := by decide +kernel
  have hfirst : ∀ first ∈ fleetForm.steps.head?,
      .text first.id ∉ fleetSession.route fleetForm fleetWander := by
    rw [hroute]
    decide
  have hpath : fleetSession.path = [] := by decide +kernel
  obtain ⟨-, hback, hhistory, -⟩ :=
    retreats_of_route hpath (by decide) rfl (congrArg List.length hroute).symm hfirst
  refine ⟨hpath, by decide, hroute, hfirst, hback.trans ?_,
    hhistory.trans (congrArg Standing.history hstart)⟩
  have hcurrent : fleetSession.current = "step2_vehicles" := congrArg Standing.current hstart
  rw [hroute, hcurrent]
  rfl

end BranchForm
