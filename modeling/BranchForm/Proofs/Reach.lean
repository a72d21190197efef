import BranchForm.Check.Reach
import BranchForm.Proofs.Lookup
import BranchForm.Proofs.Values
import Mathlib

/-!
# Reachable steps are a closure

The search for reachable places follows targets until none is left. It comes to an end with a result
unless it meets a target that cannot be visited, and then the result has the start and, of all places
that it leads to, those that are texts, as the names of steps are. Places of other kinds lead nowhere.

* `Form.LeadsTo` is one target followed, `Form.Reaches` any number of them; `Form.leadsTo_iff` and
  `Form.LeadsTo.exists_target` say what leads where;
* `ClosedUpTo` is the invariant of the search, with a lemma for each of its two steps; `of_visit` is
  what a whole search comes to, and `visit_cases` says when it comes to nothing and fails;
* `Form.reachable_ok_iff` : the search from a text has a result exactly if what it reaches leads to
  keys only; `Form.mem_reachable_iff` : a text is in the result if and only if the start reaches it;
* `Form.exists_reachable` : where all targets are texts, both hold without exception;
* `Form.Closed` are the sets of ids that targets do not lead out of, and `reachable_isLeast` : the
  search finds the least one with the start in it.
-/

namespace BranchForm

/-- A place leads to another. -/
def Form.LeadsTo (form : Form) (v w : Value) : Prop := w ∈ form.successors v

/-- A place leads to another along any number of targets. -/
def Form.Reaches (form : Form) : Value → Value → Prop := Relation.ReflTransGen form.LeadsTo

variable {form : Form}

/-! ### Targets -/

namespace Form

theorem isKey_place (form : Form) (target : Value) : (form.place target).isKey = target.isKey := by
  unfold place
  split
  · rename_i hfinal
    rw [hfinal]
    rfl
  · rfl

/-- A step targets what its conditions do, and those choices of its own fields that have a target. -/
theorem mem_targets {s : Step} {target : Value} : target ∈ s.targets ↔
    (∃ c ∈ s.conditions, target = .text c.nextStep) ∨
      ∃ f ∈ s.fields, ∃ c ∈ f.choices, c.target.truthy = true ∧ target = c.target := by
  simp only [Step.targets, List.mem_append, List.mem_map, List.mem_flatMap, List.mem_filter, eq_comm]
  grind

/-- A step leads to the places that its targets stand for. -/
theorem leadsTo_iff (hd : form.stepIds.Nodup) {s : Step} (hs : s ∈ form.steps) {w : Value} :
    form.LeadsTo (.text s.id) w ↔ ∃ target ∈ s.targets, w = form.place target := by
  simp only [LeadsTo, successors, latestStep?_of_mem hd hs, List.mem_map, eq_comm]

/-- Whatever leads somewhere is a step with a target. -/
theorem LeadsTo.exists_target {v w : Value} (h : form.LeadsTo v w) :
    ∃ s ∈ form.steps, v = .text s.id ∧ ∃ target ∈ s.targets, w = form.place target := by
  unfold LeadsTo successors at h
  split at h
  · split at h
    · rename_i s hs
      obtain ⟨target, htarget, rfl⟩ := List.mem_map.1 h
      obtain ⟨hmem, rfl⟩ := of_latestStep? hs
      exact ⟨s, hmem, rfl, target, htarget, rfl⟩
    · cases h
  · cases h

/-- A form whose choices have no lists and records for their targets leads to keys only. -/
theorem LeadsTo.isKey (hkeys : ∀ s ∈ form.steps, ∀ f ∈ s.fields, ∀ c ∈ f.choices,
    c.target.isKey = true) {v w : Value} (h : form.LeadsTo v w) : w.isKey = true := by
  obtain ⟨s, hs, -, target, htarget, rfl⟩ := h.exists_target
  rw [isKey_place]
  rcases mem_targets.1 htarget with ⟨c, -, rfl⟩ | ⟨f, hf, c, hc, -, rfl⟩
  · rfl
  · exact hkeys s hs f hf c hc

end Form

/-! ### Searches -/

/-- Only texts lead anywhere. -/
theorem Form.LeadsTo.text {v w : Value} (h : form.LeadsTo v w) : ∃ i, v = .text i := by
  obtain ⟨s, -, hid, -⟩ := h.exists_target
  exact ⟨s.id, hid⟩

/-- What has been visited leads to keys only, and the texts among them have been visited or stand in
the queue. -/
structure ClosedUpTo (form : Form) (visited queue : List Value) : Prop where
  /-- What is led to can be visited. -/
  keys : ∀ v ∈ visited, ∀ w, form.LeadsTo v w → w.isKey = true
  /-- A text that is led to is not forgotten. -/
  texts : ∀ v ∈ visited, ∀ i, form.LeadsTo v (.text i) → .text i ∈ visited ∨ .text i ∈ queue

/-- A place that has been visited may leave the queue. -/
theorem ClosedUpTo.skip {visited rest : List Value} {v : Value} (hv : v.within visited = true)
    (h : ClosedUpTo form visited (v :: rest)) : ClosedUpTo form visited rest where
  keys := h.keys
  texts := by
    intro u hu i hi
    rcases h.texts u hu i hi with hmem | hmem
    · exact .inl hmem
    · rcases List.mem_cons.1 hmem with rfl | hmem
      · exact .inl (Value.within_texts_iff.1 hv)
      · exact .inr hmem

/-- A place that leads to keys only may be visited once its targets have been put into the queue. -/
theorem ClosedUpTo.visit {visited rest : List Value} {v : Value}
    (hkeys : (form.successors v).all Value.isKey = true)
    (h : ClosedUpTo form visited (v :: rest)) :
    ClosedUpTo form (v :: visited)
      (rest ++ (form.successors v).filter fun w => !w.within (v :: visited)) where
  keys := List.forall_mem_cons.2 ⟨fun w hw => List.all_eq_true.1 hkeys w hw, h.keys⟩
  texts := by
    intro u hu i hi
    rcases List.mem_cons.1 hu with rfl | hu
    · by_cases hin : Value.text i ∈ u :: visited
      · exact .inl hin
      · refine .inr (List.mem_append_right _ (List.mem_filter.2 ⟨hi, ?_⟩))
        rw [Bool.not_eq_true', Bool.eq_false_iff, Ne, Value.within_texts_iff]
        exact hin
    · rcases h.texts u hu i hi with hmem | hmem
      · exact .inl (List.mem_cons_of_mem _ hmem)
      · rcases List.mem_cons.1 hmem with rfl | hmem
        · exact .inl List.mem_cons_self
        · exact .inr (List.mem_append_left _ hmem)

/-- A search that comes to a result has in it what it had visited and the texts of its queue; the
result is closed, and holds nothing but what was reached. -/
theorem of_visit {visited queue out : List Value} (h : visit form visited queue = .ok out)
    (hclosed : ClosedUpTo form visited queue) :
    visited ⊆ out ∧ (∀ i, .text i ∈ queue → .text i ∈ out) ∧ ClosedUpTo form out [] ∧
      ∀ v ∈ out, v ∈ visited ∨ ∃ u ∈ queue, form.Reaches u v := by
  induction visited, queue using visit.induct form with
  | case1 visited =>
    rw [visit] at h
    cases h
    exact ⟨List.Subset.refl _, nofun, hclosed, fun v hv => .inl hv⟩
  | case2 visited v rest hv ih =>
    rw [visit, if_pos hv] at h
    obtain ⟨hsub, hqueue, hout, hsound⟩ := ih h (hclosed.skip hv)
    refine ⟨hsub, ?_, hout, ?_⟩
    · intro i hi
      rcases List.mem_cons.1 hi with rfl | hi
      · exact hsub (Value.within_texts_iff.1 hv)
      · exact hqueue i hi
    · intro u hu
      exact (hsound u hu).imp_right fun ⟨w, hw, hreach⟩ => ⟨w, List.mem_cons_of_mem _ hw, hreach⟩
  | case3 visited v rest hv targets hkeys ih =>
    rw [visit, if_neg hv, if_pos hkeys] at h
    obtain ⟨hsub, hqueue, hout, hsound⟩ := ih h (hclosed.visit hkeys)
    rw [List.cons_subset] at hsub
    refine ⟨hsub.2, ?_, hout, ?_⟩
    · intro i hi
      rcases List.mem_cons.1 hi with rfl | hi
      · exact hsub.1
      · exact hqueue i (List.mem_append_left _ hi)
    · intro u hu
      rcases hsound u hu with hu | ⟨w, hw, hreach⟩
      · rcases List.mem_cons.1 hu with rfl | hu
        · exact .inr ⟨u, List.mem_cons_self, .refl⟩
        · exact .inl hu
      · rcases List.mem_append.1 hw with hw | hw
        · exact .inr ⟨w, List.mem_cons_of_mem _ hw, hreach⟩
        · exact .inr ⟨v, List.mem_cons_self, .head (List.mem_filter.1 hw).1 hreach⟩
  | case4 visited v rest hv targets hkeys =>
    rw [visit, if_neg hv, if_neg hkeys] at h
    cases h

/-- A search comes to a result, or it fails, and then what its queue reaches leads to a place that
cannot be visited. -/
theorem visit_cases (form : Form) (visited queue : List Value) :
    (∃ out, visit form visited queue = .ok out) ∨
      visit form visited queue = .error (.fault .wrongKind) ∧
        ∃ u ∈ queue, ∃ v w, form.Reaches u v ∧ form.LeadsTo v w ∧ w.isKey = false := by
  induction visited, queue using visit.induct form with
  | case1 visited => exact .inl ⟨visited, by rw [visit]⟩
  | case2 visited v rest hv ih =>
    rw [visit, if_pos hv]
    exact ih.imp_right fun ⟨hfault, u, hu, hreach⟩ => ⟨hfault, u, List.mem_cons_of_mem _ hu, hreach⟩
  | case3 visited v rest hv targets hall ih =>
    rw [visit, if_neg hv, if_pos hall]
    refine ih.imp_right ?_
    rintro ⟨hfault, u, hu, w, x, hreach, hleads, hkey⟩
    refine ⟨hfault, ?_⟩
    rcases List.mem_append.1 hu with hu | hu
    · exact ⟨u, List.mem_cons_of_mem _ hu, w, x, hreach, hleads, hkey⟩
    · exact ⟨v, List.mem_cons_self, w, x, .head (List.mem_filter.1 hu).1 hreach, hleads, hkey⟩
  | case4 visited v rest hv targets hall =>
    rw [visit, if_neg hv, if_neg hall]
    obtain ⟨w, hw, hkey⟩ := List.all_eq_false.1 (Bool.eq_false_iff.2 hall)
    exact .inr ⟨rfl, v, List.mem_cons_self, v, w, .refl, hw, Bool.eq_false_iff.2 hkey⟩

namespace Form

variable {start : String} {reached : List Value}

/-- The search from a text comes to a result, or it fails for a place that cannot be visited. -/
theorem reachable_cases (form : Form) (start : String) :
    (∃ reached, form.reachable (.text start) = .ok reached) ∨
      form.reachable (.text start) = .error (.fault .wrongKind) ∧
        ∃ v w, form.Reaches (.text start) v ∧ form.LeadsTo v w ∧ w.isKey = false := by
  refine (visit_cases form [] [.text start]).imp_right ?_
  rintro ⟨hfault, u, hu, v, w, hreach, hleads, hkey⟩
  exact ⟨hfault, v, w, List.mem_singleton.1 hu ▸ hreach, hleads, hkey⟩

/-- What the search from a text comes to. -/
theorem of_reachable (h : form.reachable (.text start) = .ok reached) :
    .text start ∈ reached ∧ ClosedUpTo form reached [] ∧
      ∀ v ∈ reached, form.Reaches (.text start) v := by
  obtain ⟨-, hstart, hclosed, hsound⟩ := of_visit h ⟨nofun, nofun⟩
  refine ⟨hstart start (List.mem_singleton_self _), hclosed, ?_⟩
  intro v hv
  obtain ⟨u, hu, hreach⟩ := (hsound v hv).resolve_left List.not_mem_nil
  exact List.mem_singleton.1 hu ▸ hreach

/-- A text belongs to what the search from a text finds if and only if the start reaches it. -/
theorem mem_reachable_iff (h : form.reachable (.text start) = .ok reached) {i : String} :
    .text i ∈ reached ↔ form.Reaches (.text start) (.text i) := by
  obtain ⟨hstart, hclosed, hsound⟩ := of_reachable h
  refine ⟨hsound _, ?_⟩
  intro hreach
  generalize htext : Value.text i = v at hreach
  induction hreach generalizing i with
  | refl => exact htext ▸ hstart
  | tail _ hstep ih =>
    obtain ⟨j, rfl⟩ := hstep.text
    subst htext
    exact (hclosed.texts _ (ih rfl) i hstep).resolve_right List.not_mem_nil

/-- The search from a text has a result exactly if what it reaches leads to keys only. -/
theorem reachable_ok_iff : (∃ reached, form.reachable (.text start) = .ok reached) ↔
    ∀ v w, form.Reaches (.text start) v → form.LeadsTo v w → w.isKey = true := by
  constructor
  · rintro ⟨reached, h⟩ v w hreach hstep
    obtain ⟨i, rfl⟩ := hstep.text
    exact (of_reachable h).2.1.keys _ ((mem_reachable_iff h).2 hreach) w hstep
  · intro hkeys
    refine (reachable_cases form start).resolve_right ?_
    rintro ⟨-, v, w, hreach, hleads, hkey⟩
    rw [hkeys v w hreach hleads] at hkey
    cases hkey

/-- From a text, the search finds all places that are reached and no others. -/
theorem exists_reachable (htexts : ∀ v w, form.LeadsTo v w → ∃ s, w = .text s) (start : String) :
    ∃ reached, form.reachable (.text start) = .ok reached ∧
      ∀ v, v ∈ reached ↔ form.Reaches (.text start) v := by
  obtain ⟨reached, h⟩ : ∃ reached, form.reachable (.text start) = .ok reached := by
    refine reachable_ok_iff.2 ?_
    intro v w _ hstep
    obtain ⟨s, rfl⟩ := htexts v w hstep
    rfl
  refine ⟨reached, h, fun v => ⟨(of_reachable h).2.2 v, fun hreach => ?_⟩⟩
  obtain ⟨i, rfl⟩ : ∃ i, v = .text i := by
    cases hreach with
    | refl => exact ⟨start, rfl⟩
    | tail _ hstep => exact htexts _ _ hstep
  exact (mem_reachable_iff h).2 hreach

/-! ### The least closed set -/

/-- The id that a target stands for: the reserved one stands for that of the last step. -/
def landing (form : Form) (target : String) : String :=
  if target = finalStepId then form.lastId else target

theorem place_text (form : Form) (target : String) :
    form.place (.text target) = .text (form.landing target) := by
  simp only [place, landing, Value.text.injEq]
  split <;> rfl

theorem exists_text_of_place {target : Value} {i : String} (h : form.place target = .text i) :
    ∃ t, target = .text t := by
  unfold place at h
  split at h
  · rename_i hfinal
    exact ⟨_, hfinal⟩
  · exact ⟨i, h⟩

/-- A set of ids is closed if it has with the id of a step all that the step targets: by its
conditions, and by the choices of its own fields that have a target. -/
structure Closed (form : Form) (S : Set String) : Prop where
  /-- Conditions lead to ids of the set. -/
  conditions : ∀ s ∈ form.steps, s.id ∈ S → ∀ c ∈ s.conditions, form.landing c.nextStep ∈ S
  /-- Choices lead to ids of the set. -/
  choices : ∀ s ∈ form.steps, s.id ∈ S → ∀ f ∈ s.fields, ∀ c ∈ f.choices, ∀ t, c.target = .text t →
    t ≠ "" → form.landing t ∈ S

/-- Closed are the sets of ids that lead nowhere else. -/
theorem closed_iff (hd : form.stepIds.Nodup) {S : Set String} :
    form.Closed S ↔ ∀ i ∈ S, ∀ j, form.LeadsTo (.text i) (.text j) → j ∈ S := by
  constructor
  · intro hclosed i hi j hleads
    obtain ⟨s, hs, hid, target, htarget, hplace⟩ := hleads.exists_target
    obtain rfl := Value.text.inj hid
    rcases mem_targets.1 htarget with ⟨c, hc, rfl⟩ | ⟨f, hf, c, hc, htruthy, rfl⟩
    · rw [place_text, Value.text.injEq] at hplace
      exact hplace ▸ hclosed.conditions s hs hi c hc
    · obtain ⟨t, ht⟩ := exists_text_of_place hplace.symm
      rw [ht, place_text, Value.text.injEq] at hplace
      rw [ht] at htruthy
      exact hplace ▸ hclosed.choices s hs hi f hf c hc t ht (by simpa [Value.truthy] using htruthy)
  · intro h
    have hstep {s : Step} (hs : s ∈ form.steps) (hi : s.id ∈ S) {t : String}
        (ht : .text t ∈ s.targets) : form.landing t ∈ S :=
      h s.id hi _ ((leadsTo_iff hd hs).2 ⟨_, ht, (form.place_text t).symm⟩)
    constructor
    · intro s hs hi c hc
      exact hstep hs hi (mem_targets.2 (.inl ⟨c, hc, rfl⟩))
    · intro s hs hi f hf c hc t ht hne
      have htruthy : c.target.truthy = true := by simpa [ht, Value.truthy] using hne
      exact hstep hs hi (mem_targets.2 (.inr ⟨f, hf, c, hc, htruthy, ht.symm⟩))

/-- Whatever an id of a closed set reaches is in it. -/
theorem Closed.mem_of_reaches (hd : form.stepIds.Nodup) {S : Set String} (h : form.Closed S)
    {i j : String} (hi : i ∈ S) (hreach : form.Reaches (.text i) (.text j)) : j ∈ S := by
  generalize htext : Value.text j = v at hreach
  induction hreach generalizing j with
  | refl => exact Value.text.inj htext ▸ hi
  | tail _ hstep ih =>
    obtain ⟨k, rfl⟩ := hstep.text
    subst htext
    exact (closed_iff hd).1 h k (ih rfl) j hstep

end Form

/-- **The search finds the least closed set.** From a text it comes to a result unless a choice of
one of the steps' own fields has a list or a record for its target. The ids in the result are the
least set that has the start and is closed under the targets of steps. If these choices have texts
for their targets, there is nothing else in the result. -/
theorem reachable_isLeast (hd : form.stepIds.Nodup) (start : String) :
    ((∀ s ∈ form.steps, ∀ f ∈ s.fields, ∀ c ∈ f.choices, c.target.isKey = true) →
      ∃ reached, form.reachable (.text start) = .ok reached) ∧
    ∀ reached, form.reachable (.text start) = .ok reached →
      IsLeast {S : Set String | start ∈ S ∧ form.Closed S} {i | .text i ∈ reached} ∧
      ((∀ s ∈ form.steps, ∀ f ∈ s.fields, ∀ c ∈ f.choices, c.target.truthy = true →
        ∃ t, c.target = .text t) → ∀ v ∈ reached, ∃ i, v = .text i) := by
  refine ⟨fun hkeys => Form.reachable_ok_iff.2 fun v w _ hleads => hleads.isKey hkeys, ?_⟩
  intro reached hreached
  have hmem (i : String) : .text i ∈ reached ↔ form.Reaches (.text start) (.text i) :=
    Form.mem_reachable_iff hreached
  refine ⟨⟨⟨(hmem start).2 .refl, ?closed⟩, ?least⟩, ?texts⟩
  case closed =>
    rw [Form.closed_iff hd]
    intro i hi j hleads
    exact (hmem j).2 (((hmem i).1 hi).tail hleads)
  case least =>
    rintro S ⟨hstart, hclosed⟩ i hi
    exact hclosed.mem_of_reaches hd hstart ((hmem i).1 hi)
  case texts =>
    intro htexts v hv
    rcases (Form.of_reachable hreached).2.2 v hv with _ | ⟨-, hleads⟩
    · exact ⟨start, rfl⟩
    · obtain ⟨s, hs, -, target, htarget, rfl⟩ := hleads.exists_target
      rcases Form.mem_targets.1 htarget with ⟨c, -, rfl⟩ | ⟨f, hf, c, hc, htruthy, rfl⟩
      · exact ⟨_, form.place_text c.nextStep⟩
      · obtain ⟨t, ht⟩ := htexts s hs f hf c hc htruthy
        exact ⟨_, ht ▸ form.place_text t⟩

/-- A form with a way round, a way back to the step itself, ways to steps that are not there and to
the end, and a step that no way leads to. -/
def maze : Form where
  name := "Maze"
  steps := [
    { id := "step1", title := "Gate"
      fields := [.mk { id := "gate", kind := .radio, label := "Gate", choices := [
        { id := "in", label := "In", value := "in", nextField := "hall" },
        { id := "off", label := "Off", value := "off", nextField := "" }] } []]
      conditions := [{ fieldId := "gate", value := "down", nextStep := "cellar" }] },
    { id := "hall", title := "Hall"
      fields := [.mk { id := "hall", kind := .radio, label := "Hall", choices := [
        { id := "back", label := "Back", value := "back", nextField := "step1" },
        { id := "stay", label := "Stay", value := "stay", nextField := "hall" },
        { id := "out", label := "Out", value := "out", nextField := "step_final" }] } []] },
    { id := "attic", title := "Attic"
      conditions := [{ fieldId := "gate", value := "up", nextStep := "step1" }] },
    { id := "door", title := "Door", isLast := true }]

/-- From the gate the hall, the cellar and the door are found, and no more. -/
theorem reachable_isLeast_maze :
    maze.stepIds.Nodup ∧ ∃ reached, maze.reachable "step1" = .ok reached ∧
      reached.Perm ["step1", "hall", "cellar", "door"] ∧
      IsLeast {S : Set String | "step1" ∈ S ∧ maze.Closed S} {i | .text i ∈ reached} := by
  have hd : maze.stepIds.Nodup := by decide
  obtain ⟨reached, hreached, hperm⟩ : ∃ reached, maze.reachable "step1" = .ok reached ∧
      reached.Perm ["step1", "hall", "cellar", "door"] := ⟨_, by cbv, by decide⟩
  obtain ⟨-, hleast⟩ := reachable_isLeast hd "step1"
  exact ⟨hd, reached, hreached, hperm, (hleast reached hreached).1⟩

end BranchForm
