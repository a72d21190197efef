import BranchForm.Proofs.Compiled
import BranchForm.Proofs.OnForm
import Mathlib

/-!
# Going on to the end

Going on follows the answers given and else the order of the document. In a compiled form the step
of a node stands behind those of its descendants, so the two rules pull in opposite directions, and
going on may turn back for ever: on a step without an answer the document leads to the step above
it, and the answer there leads down again.

* `Walk.onward` is the rule on the places of the document, `Walk.TurnsBack` the one way to turn
  back;
* `Walk.ends` : every walk comes to the last place or to a place where it turns back;
* `Walk.ne_last_of_turnsBack` and `Walk.exists_lt` : a walk that turns back never ends, and one that
  ends does so within as many moves as there are places;
* `Session.place_advance` : going on in a session is a step of the walk, so runs are walks
  (`Session.place_advances`);
* `advance_submits_or_turnsBack` : going on submits within as many requests as there are steps,
  unless the session turns back, and then it never does; `advance_never_submits` shows such a
  session.
-/

namespace BranchForm

namespace Walk

/-! ### Walks over places -/

/-- The place after one more move: the one to which the answers lead, or else the next. The last
place is not left. -/
def onward (count : Nat) (lead : Nat → Option Nat) (i : Nat) : Nat :=
  if i + 1 = count then i else (lead i).getD (i + 1)

/-- How answers lead in a form that puts descendants first: from the first place to any place behind
it, from the others to the last place or to one before them that is not the first. -/
structure Leads (count : Nat) (lead : Nat → Option Nat) : Prop where
  /-- There is a last place apart from the first. -/
  two : 1 < count
  /-- From the first place. -/
  first : ∀ j, lead 0 = some j → 0 < j ∧ j < count
  /-- From the other places. -/
  back : ∀ i j, 0 < i → i + 1 < count → lead i = some j → j + 1 = count ∨ 0 < j ∧ j < i

/-- The answers at a later place lead back to `u`, and there are none from `u` up to that place that
lead anywhere. -/
def TurnsBack (count : Nat) (lead : Nat → Option Nat) (u : Nat) : Prop :=
  ∃ p, u < p ∧ p + 1 < count ∧ lead p = some u ∧ ∀ k, u ≤ k → k < p → lead k = none

/-- A walk comes to the last place or to a place where it turns back. -/
def Ends (count : Nat) (lead : Nat → Option Nat) (i : Nat) : Prop :=
  (∃ k, (onward count lead)^[k] i + 1 = count) ∨
    ∃ k, TurnsBack count lead ((onward count lead)^[k] i)

variable {count : Nat} {lead : Nat → Option Nat} {i j u w : Nat}

theorem onward_of_none (hi : i + 1 ≠ count) (h : lead i = none) : onward count lead i = i + 1 := by
  simp [onward, hi, h]

theorem onward_of_some (hi : i + 1 ≠ count) (h : lead i = some j) : onward count lead i = j := by
  simp [onward, hi, h]

theorem onward_lt (h : Leads count lead) (hi : i < count) : onward count lead i < count := by
  by_cases hlast : i + 1 = count
  · simpa [onward, hlast] using hi
  · cases hlead : lead i with
    | none =>
      rw [onward_of_none hlast hlead]
      omega
    | some j =>
      rw [onward_of_some hlast hlead]
      rcases Nat.eq_zero_or_pos i with rfl | hpos
      · exact (h.first j hlead).2
      · rcases h.back i j hpos (by omega) hlead with hj | hj
        · omega
        · omega

theorem Ends.of_onward (h : Ends count lead (onward count lead i)) : Ends count lead i := by
  rcases h with ⟨k, hk⟩ | ⟨k, hk⟩
  · exact .inl ⟨k + 1, by rwa [Function.iterate_succ_apply]⟩
  · exact .inr ⟨k + 1, by rwa [Function.iterate_succ_apply]⟩

/-- Places from which no answers lead are paged over. -/
theorem Ends.of_paging (h : Ends count lead w) (hiw : i ≤ w) (hw : w < count)
    (hnone : ∀ k, i ≤ k → k < w → lead k = none) : Ends count lead i := by
  obtain ⟨d, rfl⟩ := Nat.exists_eq_add_of_le hiw
  induction d generalizing i with
  | zero => exact h
  | succ d ih =>
    refine Ends.of_onward ?_
    rw [onward_of_none (by omega) (hnone i (Nat.le_refl i) (by omega))]
    have hshift : i + (d + 1) = i + 1 + d := by omega
    rw [hshift] at h hw hnone
    exact ih h (by omega) hw fun k hik hk => hnone k (by omega) hk

/-- The first place not before `j` from which answers lead. -/
theorem exists_first_lead (hjw : j ≤ w) (hw : lead w ≠ none) :
    ∃ p, j ≤ p ∧ p ≤ w ∧ lead p ≠ none ∧ ∀ k, j ≤ k → k < p → lead k = none := by
  have hex : ∃ p, j ≤ p ∧ lead p ≠ none := ⟨w, hjw, hw⟩
  classical
  refine ⟨Nat.find hex, (Nat.find_spec hex).1, Nat.find_le ⟨hjw, hw⟩, (Nat.find_spec hex).2, ?_⟩
  intro k hjk hk
  by_contra hne
  exact Nat.find_min hex hk ⟨hjk, hne⟩

/-- A walk from a place whose answers lead back. The answers lead down to the end or to an open
place. From there the walk pages up to the first place whose answers lead on: that is the place it
came from, and then it turns back, or it is one before, and the walk goes on from there. -/
theorem ends_of_lead (h : Leads count lead) (hpos : 0 < w) (hw : w + 1 < count)
    (hlead : lead w ≠ none) : Ends count lead w := by
  induction w using Nat.strong_induction_on with
  | _ w ih =>
    obtain ⟨j, hj⟩ := Option.ne_none_iff_exists'.1 hlead
    refine Ends.of_onward ?_
    rw [onward_of_some (by omega) hj]
    rcases h.back w j hpos hw hj with hend | ⟨hjpos, hjw⟩
    · exact .inl ⟨0, hend⟩
    · obtain ⟨p, hjp, hpw, hp, hnone⟩ := exists_first_lead (Nat.le_of_lt hjw) hlead
      rcases Nat.lt_or_ge p w with hlt | hge
      · exact (ih p hlt (by omega) (by omega) hp).of_paging hjp (by omega) hnone
      · have hpw' : p = w := Nat.le_antisymm hpw hge
        rw [hpw'] at hnone
        exact .inr ⟨0, w, hjw, hw, hj, hnone⟩

theorem ends_of_pos (h : Leads count lead) (hpos : 0 < i) (hi : i < count) : Ends count lead i := by
  by_cases hex : ∃ w, i ≤ w ∧ w + 1 < count ∧ lead w ≠ none
  · obtain ⟨w, hiw, hw, hlead⟩ := hex
    obtain ⟨p, hip, hpw, hp, hnone⟩ := exists_first_lead hiw hlead
    exact (ends_of_lead h (by omega) (by omega) hp).of_paging hip (by omega) hnone
  · push Not at hex
    have hend : Ends count lead (count - 1) := .inl ⟨0, by simp; omega⟩
    exact hend.of_paging (by omega) (by omega) fun k hik hk => hex k hik (by omega)

/-- Every walk comes to the last place or to a place where it turns back. -/
theorem ends (h : Leads count lead) (hi : i < count) : Ends count lead i := by
  have htwo := h.two
  rcases Nat.eq_zero_or_pos i with rfl | hpos
  · refine Ends.of_onward ?_
    cases hlead : lead 0 with
    | none =>
      rw [onward_of_none (by omega) hlead]
      exact ends_of_pos h Nat.one_pos htwo
    | some j =>
      obtain ⟨hj, hjlt⟩ := h.first j hlead
      rw [onward_of_some (by omega) hlead]
      exact ends_of_pos h hj hjlt
  · exact ends_of_pos h hpos hi

/-- A walk that turns back goes round between two places. -/
theorem TurnsBack.bounds (h : TurnsBack count lead u) :
    ∃ p, p + 1 < count ∧ ∀ k, u ≤ (onward count lead)^[k] u ∧ (onward count lead)^[k] u ≤ p := by
  obtain ⟨p, hup, hp, hlead, hnone⟩ := h
  refine ⟨p, hp, fun k => ?_⟩
  induction k with
  | zero => exact ⟨Nat.le_refl u, Nat.le_of_lt hup⟩
  | succ k ih =>
    rw [Function.iterate_succ_apply']
    obtain ⟨hlow, hhigh⟩ := ih
    rcases Nat.lt_or_ge ((onward count lead)^[k] u) p with hlt | hge
    · rw [onward_of_none (by omega) (hnone _ hlow hlt)]
      omega
    · rw [Nat.le_antisymm hhigh hge, onward_of_some (by omega) hlead]
      omega

/-- A walk that comes to a place where it turns back never comes to the last place. -/
theorem ne_last_of_turnsBack {m : Nat} (h : TurnsBack count lead ((onward count lead)^[m] i))
    (k : Nat) : (onward count lead)^[k] i + 1 ≠ count := by
  obtain ⟨p, hp, hbounds⟩ := h.bounds
  intro hlast
  -- the last place is not left again, so the walk is there after `k + m` moves as well
  have hstay : ∀ n, (onward count lead)^[n] ((onward count lead)^[k] i) =
      (onward count lead)^[k] i := fun n =>
    Function.iterate_fixed (by simp [onward, hlast]) n
  have hm := hbounds k
  rw [← Function.iterate_add_apply, Nat.add_comm, Function.iterate_add_apply, hstay] at hm
  omega

/-- A walk that comes to the last place does so within as many moves as there are places: up to then
no place is visited twice. -/
theorem exists_lt (h : Leads count lead) (hi : i < count)
    (hend : ∃ k, (onward count lead)^[k] i + 1 = count) :
    ∃ k < count, (onward count lead)^[k] i + 1 = count ∧
      ∀ n < k, (onward count lead)^[n] i + 1 ≠ count := by
  refine ⟨Nat.find hend, ?_, Nat.find_spec hend, fun n hn => Nat.find_min hend hn⟩
  have hlt : ∀ n, (onward count lead)^[n] i < count := by
    intro n
    induction n with
    | zero => exact hi
    | succ n ih =>
      rw [Function.iterate_succ_apply']
      exact onward_lt h ih
  by_contra hge
  obtain ⟨a, b, hne, heq⟩ := Fintype.exists_ne_map_eq_of_card_lt
    (fun n : Fin (Nat.find hend + 1) => (⟨(onward count lead)^[n] i, hlt n⟩ : Fin count))
    (by rw [Fintype.card_fin, Fintype.card_fin]; omega)
  have hplaces : (onward count lead)^[a] i = (onward count lead)^[b] i := Fin.mk.inj heq
  -- two visits of one place before the end would give an earlier end
  have hearlier : ∀ a b : Nat, a < b → b ≤ Nat.find hend →
      (onward count lead)^[a] i ≠ (onward count lead)^[b] i := by
    intro a b hab hb heq
    have hfind := Nat.find_spec hend
    obtain ⟨d, hd⟩ := Nat.exists_eq_add_of_le hb
    rw [hd, Nat.add_comm b d, Function.iterate_add_apply, ← heq, ← Function.iterate_add_apply]
      at hfind
    exact Nat.find_min hend (by omega) hfind
  rcases Nat.lt_or_gt_of_ne (Fin.val_ne_of_ne hne) with hlt' | hlt'
  · exact hearlier a b hlt' (by omega) hplaces
  · exact hearlier b a hlt' (by omega) hplaces.symm

end Walk

/-! ### Where answers lead -/

namespace Form

/-- The place to which the answers on the step at a place lead, if they lead to one. -/
def leadPlace (form : Form) (answers : Members) (i : Nat) : Option Nat :=
  match form.steps[i]? with
  | none => none
  | some step => match form.answeredTarget { current := .text step.id, answers } step with
    | .ok (some target) => form.indexOf? target
    | _ => none

variable {form : Form} {settings : CompileSettings} {root : Node} {choices : List Choice}
  {branches : List Step}

theorem exists_choice_of_pickedTarget? {f : Field} {given : List Value} {target : Value}
    (h : pickedTarget? f given = some target) : ∃ c ∈ f.choices, c.target = target := by
  fun_induction pickedTarget? f given with
  | case1 => cases h
  | case2 answer rest c hchoice hnull ih => exact ih h
  | case3 answer rest c hchoice hnull =>
    exact ⟨c, List.mem_of_find?_eq_some hchoice, Option.some.inj h⟩
  | case4 answer rest hchoice ih => exact ih h
  | case5 answer rest hanswer ih => exact ih h

/-- On a step with one field and no conditions, answers lead where a choice does. -/
theorem exists_choice_of_answeredTarget {s : Session} {step : Step} {f : Field} {v : Value}
    (hfields : step.fields = [f]) (hconditions : step.conditions = [])
    (h : form.answeredTarget s step = .ok (some v)) :
    ∃ c ∈ step.leadChoices, form.resolve s.current c.target = .ok v := by
  have hlead : step.leadChoices = f.choices := by simp [Step.leadChoices, hfields]
  simp only [answeredTarget, firedCondition?, hconditions, List.find?_nil, hfields,
    List.findSome?_cons, List.findSome?_nil] at h
  cases hpicked : pickedTarget? f (answersTo s.answers f) with
  | none =>
    rw [hpicked] at h
    cases h
  | some target =>
    obtain ⟨c, hc, rfl⟩ := exists_choice_of_pickedTarget? hpicked
    rw [hpicked] at h
    refine ⟨c, hlead ▸ hc, ?_⟩
    cases hresolve : form.resolve s.current c.target with
    | error cause =>
      simp [hresolve, Except.map] at h
    | ok w =>
      simp only [hresolve, Except.map, Except.ok.injEq, Option.some.injEq] at h
      rw [h]

namespace Arranged

/-- The place of a step to which a choice leads. -/
theorem place_of_leadsInto (h : form.Arranged settings root choices branches) {c : Choice} {b j : Nat}
    (hc : c.LeadsInto (branches.take b)) {source v : Value}
    (hv : form.resolve source c.target = .ok v) (hj : form.indexOf? v = some j) :
    j + 1 = form.steps.length ∨ 0 < j ∧ j ≤ b ∧ j ≤ branches.length := by
  rcases hc with hfinal | ⟨s, hs, hid⟩
  · rw [hfinal, h.resolve_final] at hv
    cases hv
    have hplace := stepIndex?_of_getElem? h.nodup_stepIds h.getElem?_final
    have hj' : some (branches.length + 1) = some j := hplace.symm.trans hj
    cases hj'
    exact .inl h.length_steps.symm
  · obtain ⟨k, hk, hget⟩ := List.mem_take_iff_getElem.1 hs
    obtain ⟨high, hlaid⟩ := h.laid
    have hmem : s ∈ branches := List.mem_of_mem_take hs
    obtain ⟨n, nodeId, -, -, hsid⟩ := hlaid.numbered s hmem
    have hne : s.id ≠ finalStepId := hsid ▸ branchStepId_ne_final n nodeId
    rw [hid, resolve_of_mem (h.mem_branch hmem) hne] at hv
    cases hv
    have hplace : form.stepIndex? s.id = some (k + 1) := by
      apply stepIndex?_of_getElem? h.nodup_stepIds
      rw [h.getElem?_branch (by omega), List.getElem?_eq_getElem (by omega), hget]
    have hj' : some (k + 1) = some j := hplace.symm.trans hj
    cases hj'
    exact .inr ⟨by omega, by omega, by omega⟩

/-- Every place but the last is that of a step with one field, no conditions and no end mark, whose
choices lead to the end or to steps put out before it; those of the first lead anywhere. -/
theorem step_at (h : form.Arranged settings root choices branches) {i : Nat}
    (hi : i + 1 < form.steps.length) :
    ∃ step q, form.steps[i]? = some step ∧ step.fields = [.mk q []] ∧ step.conditions = [] ∧
      step.isLast = false ∧ ∀ c ∈ step.leadChoices,
        c.LeadsInto (branches.take (if i = 0 then branches.length else i - 1)) := by
  rw [h.length_steps] at hi
  cases i with
  | zero =>
    refine ⟨_, _, h.getElem?_entry, rfl, rfl, rfl, fun c hc => ?_⟩
    simpa using h.leads c hc
  | succ b =>
    have hb : b < branches.length := by omega
    obtain ⟨high, hlaid⟩ := h.laid
    obtain ⟨q, hfields, hconditions, hlast⟩ := hlaid.plain branches[b] (List.getElem_mem hb)
    have hget : branches[b]? = some branches[b] := List.getElem?_eq_getElem hb
    refine ⟨branches[b], q, ?_, hfields, hconditions, hlast, ?_⟩
    · rw [h.getElem?_branch hb, hget]
    · simpa using hlaid.backward b branches[b] hget

/-- Answers lead as in a walk. -/
theorem leads_leadPlace (h : form.Arranged settings root choices branches) (answers : Members) :
    Walk.Leads form.steps.length (form.leadPlace answers) := by
  have hlength := h.length_steps
  have hlead : ∀ i j, i + 1 < form.steps.length → form.leadPlace answers i = some j →
      j + 1 = form.steps.length ∨
        0 < j ∧ j ≤ (if i = 0 then branches.length else i - 1) ∧ j ≤ branches.length := by
    intro i j hi hj
    obtain ⟨step, q, hstep, hfields, hconditions, -, hinto⟩ := h.step_at hi
    simp only [leadPlace, hstep] at hj
    split at hj
    · rename_i v hv
      obtain ⟨c, hc, hresolve⟩ := exists_choice_of_answeredTarget hfields hconditions hv
      exact h.place_of_leadsInto (hinto c hc) hresolve hj
    · cases hj
  refine ⟨by omega, fun j hj => ?_, fun i j hpos hi hj => ?_⟩
  · rcases hlead 0 j (by omega) hj with hend | ⟨hj0, -, hjb⟩
    · omega
    · omega
  · rcases hlead i j hi hj with hend | ⟨hj0, hjb, -⟩
    · exact .inl hend
    · rw [if_neg (by omega)] at hjb
      exact .inr ⟨hj0, by omega⟩

end Arranged

end Form

/-! ### Going on in a session -/

namespace Session

/-- The session after going on several times. -/
def advances (form : Form) (s : Session) : Nat → Session
  | 0 => s
  | k + 1 => ((s.advances form k).advance form).session

/-- Going on comes to a step where it turns back: the answers on a later step lead to it, and those
on the steps from there up to that one lead nowhere. -/
def GoesRound (form : Form) (s : Session) : Prop :=
  ∃ k u, form.indexOf? (s.advances form k).current = some u ∧
    Walk.TurnsBack form.steps.length (form.leadPlace s.answers) u

variable {form : Form} {s : Session} {settings : CompileSettings} {root : Node}
  {choices : List Choice} {branches : List Step}

/-- On the last place going on submits and stays. -/
theorem place_leave_last {step : Step} {i : Nat} (hplace : form.indexOf? s.current = some i)
    (hi : i + 1 = form.steps.length) :
    s.leave form step = { session := { s with completed := .bool true }, outcome := .ok .submit } := by
  simp [leave, endsWith, hplace, hi]

/-- On any other place going on moves, where the answers lead or to the next place. -/
theorem place_leave (harranged : form.Arranged settings root choices branches) {step : Step} {i : Nat}
    (hplace : form.indexOf? s.current = some i) (hstep : form.steps[i]? = some step)
    (hcurrent : s.current = .text step.id) (hi : i + 1 < form.steps.length) :
    (s.leave form step).outcome = .ok .moved ∧ (s.leave form step).session.answers = s.answers ∧
      form.indexOf? (s.leave form step).session.current =
        some (Walk.onward form.steps.length (form.leadPlace s.answers) i) := by
  have hd := harranged.nodup_stepIds
  obtain ⟨step', q, hstep', -, -, hlast, -⟩ := harranged.step_at hi
  obtain rfl : step = step' := Option.some.inj (hstep.symm.trans hstep')
  have hend : s.endsWith form step = false := by
    simp [endsWith, hlast, hplace]
    omega
  have hne : i + 1 ≠ form.steps.length := Nat.ne_of_lt hi
  -- the answers of the session decide, whatever else it holds
  have hanswers : form.answeredTarget s step =
      form.answeredTarget { current := .text step.id, answers := s.answers } step := by
    rw [← hcurrent]
    rfl
  have honward (hnone : form.leadPlace s.answers i = none) :
      form.indexOf? (stepIdAt form (((form.indexOf? s.current).map (· + 1)).getD 0)) =
        some (Walk.onward form.steps.length (form.leadPlace s.answers) i) := by
    rw [Walk.onward_of_none hne hnone, hplace]
    exact Form.indexOf?_stepIdAt hd hi
  cases htarget : form.answeredTarget s step with
  | error cause =>
    simp only [leave, hend, htarget, Bool.false_eq_true, ↓reduceIte]
    exact ⟨trivial, rfl, honward (by simp [Form.leadPlace, hstep, ← hanswers, htarget])⟩
  | ok target =>
    cases target with
    | none =>
      simp only [leave, hend, htarget, Bool.false_eq_true, ↓reduceIte]
      exact ⟨trivial, rfl, honward (by simp [Form.leadPlace, hstep, ← hanswers, htarget])⟩
    | some v =>
      obtain ⟨j, hj⟩ := Form.exists_indexOf?_of_has (Form.has_of_answeredTarget htarget)
      have hlead : form.leadPlace s.answers i = some j := by
        simp [Form.leadPlace, hstep, ← hanswers, htarget, hj]
      simp only [leave, hend, htarget, Bool.false_eq_true, ↓reduceIte]
      refine ⟨trivial, rfl, hj.trans ?_⟩
      rw [Walk.onward_of_some hne hlead]

/-- Going on is a step of the walk: it submits on the last place and moves on all others. -/
theorem place_advance (harranged : form.Arranged settings root choices branches) (h : s.Flat form)
    {i : Nat} (hplace : form.indexOf? s.current = some i) :
    form.indexOf? (s.advance form).session.current =
        some (Walk.onward form.steps.length (form.leadPlace s.answers) i) ∧
      (s.advance form).session.answers = s.answers ∧
      (s.advance form).outcome = .ok (if i + 1 = form.steps.length then .submit else .moved) := by
  obtain ⟨step, hstep, hcurrent⟩ := Form.getElem?_of_indexOf? hplace
  have hshown : s.step form = .ok step := by
    apply step_of_stepOf?
    rw [hcurrent]
    exact Form.step?_of_mem harranged.nodup_stepIds (List.mem_of_getElem? hstep)
  rw [advance_of_path_nil h.path hshown]
  by_cases hi : i + 1 = form.steps.length
  · rw [place_leave_last hplace hi]
    refine ⟨?_, rfl, by rw [if_pos hi]⟩
    simp [Walk.onward, hi, hplace]
  · have hlt := Form.lt_of_indexOf? hplace
    obtain ⟨houtcome, hanswers, hnext⟩ := place_leave harranged hplace hstep hcurrent (by omega)
    exact ⟨hnext, hanswers, by rw [houtcome, if_neg hi]⟩

/-- Going on several times is a walk. -/
theorem place_advances (harranged : form.Arranged settings root choices branches) (h : s.Flat form)
    {i : Nat} (hplace : form.indexOf? s.current = some i) (k : Nat) :
    (s.advances form k).Flat form ∧ (s.advances form k).answers = s.answers ∧
      form.indexOf? (s.advances form k).current =
        some ((Walk.onward form.steps.length (form.leadPlace s.answers))^[k] i) := by
  induction k with
  | zero => exact ⟨h, rfl, hplace⟩
  | succ k ih =>
    obtain ⟨hflat, hanswers, hk⟩ := ih
    obtain ⟨hnext, hkept, -⟩ := place_advance harranged hflat hk
    refine ⟨hflat.advance, hkept.trans hanswers, ?_⟩
    rw [Function.iterate_succ_apply', ← hanswers]
    rw [hanswers] at hnext ⊢
    exact hnext

/-- A session that goes round moves whenever it goes on. -/
theorem moved_of_goesRound (harranged : form.Arranged settings root choices branches)
    (h : s.Flat form) (hround : s.GoesRound form) (k : Nat) :
    ((s.advances form k).advance form).outcome = .ok .moved := by
  obtain ⟨m, u, hm, hturns⟩ := hround
  obtain ⟨i, hplace⟩ := Form.exists_indexOf?_of_has h.current
  obtain ⟨-, -, hwalk⟩ := place_advances harranged h hplace m
  obtain rfl := Option.some.inj (hwalk.symm.trans hm)
  obtain ⟨hflat, -, hk⟩ := place_advances harranged h hplace k
  obtain ⟨-, -, houtcome⟩ := place_advance harranged hflat hk
  rw [houtcome, if_neg (Walk.ne_last_of_turnsBack hturns k)]

/-- A session that does not go round submits. -/
theorem submits_of_not_goesRound (harranged : form.Arranged settings root choices branches)
    (h : s.Flat form) (hround : ¬ s.GoesRound form) :
    ∃ k < form.steps.length, ((s.advances form k).advance form).outcome = .ok .submit ∧
      ∀ n < k, ((s.advances form n).advance form).outcome = .ok .moved := by
  obtain ⟨i, hplace⟩ := Form.exists_indexOf?_of_has h.current
  have hi := Form.lt_of_indexOf? hplace
  have hleads := harranged.leads_leadPlace s.answers
  have houtcome : ∀ k, ((s.advances form k).advance form).outcome =
      .ok (if (Walk.onward form.steps.length (form.leadPlace s.answers))^[k] i + 1 =
        form.steps.length then .submit else .moved) := by
    intro k
    obtain ⟨hflat, -, hk⟩ := place_advances harranged h hplace k
    exact (place_advance harranged hflat hk).2.2
  have hend : ∃ k, (Walk.onward form.steps.length (form.leadPlace s.answers))^[k] i + 1 =
      form.steps.length := by
    rcases Walk.ends hleads hi with hend | ⟨k, hturns⟩
    · exact hend
    · obtain ⟨-, -, hk⟩ := place_advances harranged h hplace k
      exact absurd ⟨k, _, hk, hturns⟩ hround
  obtain ⟨k, hk, hlast, hbefore⟩ := Walk.exists_lt hleads hi hend
  refine ⟨k, hk, ?_, fun n hn => ?_⟩
  · rw [houtcome, if_pos hlast]
  · rw [houtcome, if_neg (hbefore n hn)]

/-- Without answers there is nothing to turn back for. -/
theorem not_goesRound_of_answers_nil (harranged : form.Arranged settings root choices branches)
    (h : s.answers = []) : ¬ s.GoesRound form := by
  rintro ⟨k, u, -, p, -, hp, hlead, -⟩
  obtain ⟨step, q, hstep, hfields, hconditions, -, -⟩ := harranged.step_at hp
  have hnone : form.answeredTarget { current := .text step.id } step = .ok none := by
    simp [Form.answeredTarget, Form.firedCondition?, hconditions, hfields, Form.answersTo,
      Members.getOrNull, Members.getD, Members.get?, Form.pickedTarget?]
  simp [Form.leadPlace, hstep, h, hnone] at hlead

end Session

/-- **Going on submits unless it turns back.** In every session that picking choices and going from
step to step leads to, going on submits within as many requests as the form has steps, or it comes
to a step where it turns back, and then it never submits. -/
theorem advance_submits_or_turnsBack {settings : CompileSettings} {t : OptionTree} {form : Form}
    {s : Session} (hchildren : t.children ≠ []) (h : compile settings (some t) = .ok form)
    (hs : form.Reached Request.isMove s) :
    (¬ s.GoesRound form → ∃ k < form.steps.length,
      ((s.advances form k).advance form).outcome = .ok .submit ∧
      ∀ n < k, ((s.advances form n).advance form).outcome = .ok .moved) ∧
    (s.GoesRound form → ∀ k, ((s.advances form k).advance form).outcome = .ok .moved) := by
  obtain ⟨root, cs⟩ := t
  obtain ⟨c, cs, rfl⟩ := List.exists_cons_of_ne_nil hchildren
  obtain ⟨inner, -, harranged⟩ := Form.arranged_of_compile h
  have hflat := Session.flat_of_reached hs
  exact ⟨Session.submits_of_not_goesRound harranged hflat,
    Session.moved_of_goesRound harranged hflat⟩

/-- A tree with a branch inside a branch. -/
def garage : OptionTree :=
  .node { id := "root", label := "Real Estate", kind := .root }
    [.node { id := "vehicles", label := "Vehicles" }
      [.node { id := "car", label := "Car" } [.node { id := "sedan", label := "Sedan" } []]]]

/-- The form of the tree: the step of the inner branch stands before that of the outer one. -/
def garageForm : Form :=
  { name := "Real Estate"
    description := "Find the best real estate for you"
    steps := [
      entryStep {} garage.data
        [childChoice { id := "vehicles", label := "Vehicles" } "vehicles" "step2_vehicles"],
      branchStep 3 { id := "car", label := "Car" } "Choose Car Type" "Select Car option"
        [childChoice { id := "sedan", label := "Sedan" } "sedan" "step_final"],
      branchStep 2 { id := "vehicles", label := "Vehicles" } "Choose Vehicles Type"
        "Select Vehicles option" [childChoice { id := "car", label := "Car" } "car" "step3_car"],
      finalStep {}]
    settings := { successMessage := "Thanks! We'll recommend the best real estate for you." } }

theorem compile_garage : compile {} (some garage) = .ok garageForm := by cbv

/-- The respondent has picked the vehicles, then the car, and picks no car. -/
def garageSession : Session :=
  Request.apply garageForm
    (Request.apply garageForm { current := .text entryStepId } (.select "main_selection" "vehicles"))
    (.select "vehicles_selection" "car")

theorem reached_garageSession : garageForm.Reached Request.isMove garageSession :=
  .next (.next (.fresh rfl) rfl) rfl

/-- From the step of the car the document leads to that of the vehicles, and the answer there back.
-/
theorem goesRound_garageSession : garageSession.GoesRound garageForm := by
  have hcurrent : garageForm.indexOf? garageSession.current = some 1 := by decide +kernel
  have hcar : garageForm.leadPlace garageSession.answers 1 = none := by decide +kernel
  have hvehicles : garageForm.leadPlace garageSession.answers 2 = some 1 := by decide +kernel
  have hlength : garageForm.steps.length = 4 := rfl
  refine ⟨0, 1, hcurrent, 2, by decide, by rw [hlength]; decide, hvehicles, fun k hk hlt => ?_⟩
  obtain rfl : k = 1 := by omega
  exact hcar

theorem advance_never_submits :
    ∃ form s, compile {} (some garage) = .ok form ∧ garage.children ≠ [] ∧
      form.Reached Request.isMove s ∧
      ¬ ∃ k < form.steps.length, ((s.advances form k).advance form).outcome = .ok .submit := by
  obtain ⟨inner, -, harranged⟩ := Form.arranged_of_compile compile_garage
  refine ⟨garageForm, garageSession, compile_garage, nofun, reached_garageSession, ?_⟩
  rintro ⟨k, -, hsubmit⟩
  rw [Session.moved_of_goesRound harranged (Session.flat_of_reached reached_garageSession)
    goesRound_garageSession] at hsubmit
  cases hsubmit

theorem advance_garage :
    compile {} (some garage) = .ok garageForm ∧
      (∃ s, garageForm.begin none = .ok s ∧ ∃ k < garageForm.steps.length,
        ((s.advances garageForm k).advance garageForm).outcome = .ok .submit ∧
        ∀ n < k, ((s.advances garageForm n).advance garageForm).outcome = .ok .moved) ∧
      garageForm.Reached Request.isMove garageSession ∧
      ∀ k, ((garageSession.advances garageForm k).advance garageForm).outcome = .ok .moved := by
  obtain ⟨inner, -, harranged⟩ := Form.arranged_of_compile compile_garage
  have hchildren : garage.children ≠ [] := nofun
  refine ⟨compile_garage, ⟨{ current := .text entryStepId }, rfl, ?_⟩, reached_garageSession, ?_⟩
  · exact (advance_submits_or_turnsBack hchildren compile_garage (.fresh rfl)).1
      (Session.not_goesRound_of_answers_nil harranged rfl)
  · exact (advance_submits_or_turnsBack hchildren compile_garage reached_garageSession).2
      goesRound_garageSession

end BranchForm
