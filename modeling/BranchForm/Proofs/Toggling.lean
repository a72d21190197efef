import BranchForm.Proofs.Outcomes
import BranchForm.Proofs.Resumed
import Mathlib

/-!
# Choices switched on and off

In a field of several choices a pick switches a value on or off: one that is not among the answers is
put behind them, one that is among them is taken out. In between the respondent picks elsewhere, and
goes to and fro. What is stored in the end can be told from the picks alone: a value is on if it was
picked an odd number of times, and the values stand in the order in which they were last switched on.

* `Request.isBrowsing` tells the requests, `Session.picksIn` are the picks of a run in a field that
  the step shown has;
* `Session.get?_apply_of_pick?_none` and `Session.get?_apply_of_pick?` say what one request makes of
  the answer to a field;
* `Session.switchesOn` are the requests of a run that switch a value on, `Session.OnBefore` compares
  two values by the last of them;
* `Session.Switched` is the invariant. `Session.Switched.concat` is its step and
  `Session.switched_run` says that it holds of whole runs;
* `Session.switched_odd_picks` is the result.
-/

namespace BranchForm

/-! ### Lists of values -/

namespace Value

theorem removeFrom_sublist (v : Value) (items : List Value) :
    (v.removeFrom items).Sublist items := by
  induction items with
  | nil => exact .slnil
  | cons w ws ih =>
    rw [removeFrom]
    split
    · exact List.sublist_cons_self w ws
    · exact ih.cons_cons w

/-- Taking a text out of a list in which no two values agree leaves the other texts. -/
theorem mem_removeFrom_text {v : Value} {items : List Value}
    (h : items.Pairwise fun u w => u.agrees w = false) {t : String} :
    Value.text t ∈ v.removeFrom items ↔ Value.text t ∈ items ∧ v ≠ .text t := by
  induction items with
  | nil => simp [removeFrom]
  | cons w ws ih =>
    obtain ⟨hw, hws⟩ := List.pairwise_cons.1 h
    rw [removeFrom]
    by_cases hv : w.agrees v = true
    · rw [if_pos hv, List.mem_cons]
      constructor
      · intro hmem
        refine ⟨.inr hmem, ?_⟩
        rintro rfl
        obtain rfl := agrees_text_iff.1 hv
        exact absurd (hw _ hmem) (by simp [agrees_text])
      · rintro ⟨rfl | hmem, hne⟩
        · exact absurd (text_agrees_iff.1 hv) hne
        · exact hmem
    · rw [if_neg hv, List.mem_cons, List.mem_cons, ih hws]
      constructor
      · rintro (rfl | ⟨hmem, hne⟩)
        · refine ⟨.inl rfl, ?_⟩
          rintro rfl
          exact hv (text_agrees_iff.2 rfl)
        · exact ⟨.inr hmem, hne⟩
      · rintro ⟨rfl | hmem, hne⟩
        · exact .inl rfl
        · exact .inr ⟨hmem, hne⟩

end Value

/-! ### Picks in a field -/

/-- All fields of an id, on whatever step and at whatever depth, take several choices. -/
def Form.MultipleUnder (form : Form) (fieldId : Value) : Prop :=
  ∀ step ∈ form.steps, ∀ f ∈ Field.deepAll step.fields, f.id = fieldId →
    f.question.kind.isMultiple = true

/-- Whether the step shown has a field of an id, at any depth. -/
def Session.hasField (form : Form) (s : Session) (fieldId : Value) : Bool :=
  match s.step form with
  | .ok step => decide (fieldId ∈ step.answerKeys)
  | .error _ => false

namespace Request

/-- Whether a request picks a choice, enters nested fields or goes from step to step. -/
def isBrowsing : Request → Bool
  | .select _ _ | .enter _ | .advance | .retreat | .jump _ => true
  | .set _ _ | .reset => false

/-- The value that a request picks in a field, if the step shown has the field. -/
def pick? (form : Form) (s : Session) (fieldId : Value) : Request → Option Value
  | .select key value => if key = fieldId ∧ s.hasField form fieldId then some value else none
  | _ => none

end Request

namespace Session

variable {form : Form} {s s₀ : Session} {r : Request} {rs : List Request} {name : String}
  {v w : Value}

/-- The values that a run picks in a field while the step shown has it, one after the other. -/
def picksIn (form : Form) (fieldId : Value) : Session → List Request → List Value
  | _, [] => []
  | s, r :: rs => (r.pick? form s fieldId).toList ++ picksIn form fieldId (r.apply form s) rs

theorem picksIn_concat (form : Form) (fieldId : Value) (s : Session) (rs : List Request)
    (r : Request) : picksIn form fieldId s (rs ++ [r]) =
      picksIn form fieldId s rs ++ (r.pick? form (s.run form rs) fieldId).toList := by
  induction rs generalizing s with
  | nil => simp [picksIn]
  | cons q rs ih => simp [picksIn, ih, List.append_assoc]

/-! ### What a request makes of the answer -/

/-- A request that picks nothing in a field leaves the answer to it. -/
theorem get?_apply_of_pick?_none (hr : r.isBrowsing = true) (h : r.pick? form s name = none) :
    Members.get? (r.apply form s).answers name = Members.get? s.answers name := by
  have hstores := (comes_apply form s r).stores (by rintro rfl; cases hr)
  rcases hstores with hsame | ⟨fieldId, hfield, stored, hput⟩
  · rw [hsame]
  by_cases hne : fieldId = .text name
  · -- only a pick answers the field, and it does not if the step shown has no such field
    subst hne
    cases r with
    | select key value =>
      obtain rfl : key = .text name := Option.some.inj hfield
      have habsent : s.hasField form name = false := by simpa [Request.pick?] using h
      have hkept : (s.select form (.text name) value).session = s := by
        cases hstep : s.step form with
        | error e => simp only [select, hstep]
        | ok step => exact select_of_absent hstep (by simpa [hasField, hstep] using habsent)
      rw [Request.apply, hkept]
    | set => cases hr
    | enter | advance | retreat | jump | reset => cases hfield
  · rw [hput]
    exact Members.get?_put_of_ne hne _ _

/-- A request that picks a value in a field switches it. -/
theorem get?_apply_of_pick? (hmultiple : form.MultipleUnder name)
    (h : r.pick? form s name = some v) :
    Members.get? (r.apply form s).answers name =
      some (.list (switch (s.answer name) v).1) := by
  cases r with
  | select key value =>
    simp only [Request.pick?, Option.ite_none_right_eq_some, Option.some.injEq] at h
    obtain ⟨⟨rfl, hhas⟩, rfl⟩ := h
    unfold hasField at hhas
    split at hhas
    · rename_i step hstep
      obtain ⟨f, hfield⟩ := exists_findField (of_decide_eq_true hhas)
      obtain ⟨hmem, hname⟩ := of_findField hfield
      have hkind := hmultiple step (of_step hstep).1 f hmem (Value.agrees_text_iff.1 hname)
      obtain ⟨chosen, on, hswitch⟩ : ∃ chosen on, switch (s.answer name) value = (chosen, on) :=
        ⟨_, _, rfl⟩
      rw [Request.apply, select_of_multiple hstep hfield hkind hswitch, answers_follow, hswitch]
      simp [withAnswer, Members.get?_put]
    · cases hhas
  | set | enter | advance | retreat | jump | reset => cases h

/-- Switching a value takes it out of those picked before, or puts it behind them. -/
theorem switch_eq (s : Session) (fieldId v : Value) : (switch (s.answer fieldId) v).1 =
    if v.within (s.pickedBefore fieldId) then v.removeFrom (s.pickedBefore fieldId)
    else s.pickedBefore fieldId ++ [v] := by
  change (if v.within (s.pickedBefore fieldId) then
    (v.removeFrom (s.pickedBefore fieldId), false)
    else (s.pickedBefore fieldId ++ [v], true)).1 = _
  split <;> rfl

theorem pickedBefore_of_get? {chosen : List Value}
    (h : Members.get? s.answers name = some (.list chosen)) : s.pickedBefore name = chosen := by
  simp [pickedBefore, answer, Members.getOrNull_of_get? h]

theorem pickedBefore_congr {s' : Session}
    (h : Members.get? s'.answers name = Members.get? s.answers name) :
    s'.pickedBefore name = s.pickedBefore name := by
  simp only [pickedBefore, answer, Members.getOrNull, Members.getD, h]

/-! ### When a value was switched on -/

/-- The choices that are on in a field after the first requests of a run. -/
def onAfter (form : Form) (s : Session) (rs : List Request) (fieldId : Value) (k : Nat) :
    List Value :=
  (s.run form (rs.take k)).pickedBefore fieldId

/-- The requests of a run that switch a value on, by the number of requests made before. -/
def switchesOn (form : Form) (s : Session) (rs : List Request) (fieldId v : Value) : Set Nat :=
  {k | v ∉ s.onAfter form rs fieldId k ∧ v ∈ s.onAfter form rs fieldId (k + 1)}

/-- In a run one value was last switched on before another one was. -/
def OnBefore (form : Form) (s : Session) (rs : List Request) (fieldId v w : Value) : Prop :=
  ∃ i j, IsGreatest (s.switchesOn form rs fieldId v) i ∧
    IsGreatest (s.switchesOn form rs fieldId w) j ∧ i < j

theorem lt_of_switchesOn {fieldId : Value} {k : Nat} (h : k ∈ s.switchesOn form rs fieldId v) :
    k < rs.length := by
  by_contra hle
  obtain ⟨hoff, hon⟩ := h
  rw [onAfter, List.take_of_length_le (by omega)] at hoff hon
  exact hoff hon

/-- One request more can switch a value on, and changes nothing about when others were. -/
theorem mem_switchesOn_concat {fieldId : Value} {k : Nat} :
    k ∈ s.switchesOn form (rs ++ [r]) fieldId v ↔ k ∈ s.switchesOn form rs fieldId v ∨
      k = rs.length ∧ v ∉ (s.run form rs).pickedBefore fieldId ∧
        v ∈ (r.apply form (s.run form rs)).pickedBefore fieldId := by
  rcases Nat.lt_trichotomy k rs.length with hlt | rfl | hgt
  · have hne : k ≠ rs.length := by omega
    simp only [switchesOn, onAfter, Set.mem_ofPred_eq, hne, false_and, or_false]
    rw [List.take_append_of_le_length (by omega), List.take_append_of_le_length (by omega)]
  · have hnot : rs.length ∉ s.switchesOn form rs fieldId v := fun h =>
      Nat.lt_irrefl _ (lt_of_switchesOn h)
    simp only [hnot, false_or, true_and]
    simp [switchesOn, onAfter, List.take_of_length_le, run_append]
  · refine iff_of_false ?_ ?_
    · intro h
      have hlt := lt_of_switchesOn h
      rw [List.length_append, List.length_singleton] at hlt
      omega
    · rintro (h | ⟨rfl, -⟩)
      · have hlt := lt_of_switchesOn h
        omega
      · omega

/-- A value that is on before a request is not switched on by it. -/
theorem switchesOn_concat_of_mem {fieldId : Value}
    (h : v ∈ (s.run form rs).pickedBefore fieldId) :
    s.switchesOn form (rs ++ [r]) fieldId v = s.switchesOn form rs fieldId v := by
  ext k
  rw [mem_switchesOn_concat, or_iff_left]
  rintro ⟨-, hoff, -⟩
  exact hoff h

/-- A value that is on after a request and was not before has just been switched on. -/
theorem isGreatest_switchesOn_concat {fieldId : Value}
    (hoff : v ∉ (s.run form rs).pickedBefore fieldId)
    (hon : v ∈ (r.apply form (s.run form rs)).pickedBefore fieldId) :
    IsGreatest (s.switchesOn form (rs ++ [r]) fieldId v) rs.length := by
  refine ⟨mem_switchesOn_concat.2 (.inr ⟨rfl, hoff, hon⟩), ?_⟩
  intro k hk
  have hlt := lt_of_switchesOn hk
  rw [List.length_append, List.length_singleton] at hlt
  omega

/-- A request that switches on neither of two values leaves their order. -/
theorem onBefore_concat {fieldId : Value} (hv : v ∈ (s.run form rs).pickedBefore fieldId)
    (hw : w ∈ (s.run form rs).pickedBefore fieldId) (h : s.OnBefore form rs fieldId v w) :
    s.OnBefore form (rs ++ [r]) fieldId v w := by
  rw [OnBefore, switchesOn_concat_of_mem hv, switchesOn_concat_of_mem hw]
  exact h

/-! ### Runs -/

/-- What a run has made of the answer to a field of several choices. -/
structure Switched (form : Form) (s₀ : Session) (name : String) (rs : List Request)
    (s : Session) : Prop where
  /-- The session is the one after the run. -/
  run : s₀.run form rs = s
  /-- Once something has been picked, the values that are on are stored. -/
  stored : Members.get? s.answers name =
    if s₀.picksIn form name rs = [] then none else some (.list (s.pickedBefore name))
  /-- No two of them agree. -/
  distinct : (s.pickedBefore name).Pairwise fun v w => v.agrees w = false
  /-- A text is on if it was picked an odd number of times. -/
  odd : ∀ t : String, .text t ∈ s.pickedBefore name ↔
    Odd ((s₀.picksIn form name rs).count (.text t))
  /-- All were picked. -/
  picked : ∀ v ∈ s.pickedBefore name, v ∈ s₀.picksIn form name rs
  /-- All were switched on. -/
  dated : ∀ v ∈ s.pickedBefore name, ∃ k, IsGreatest (s₀.switchesOn form rs name v) k
  /-- They stand in the order in which they were. -/
  ordered : (s.pickedBefore name).Pairwise fun v w => ∀ t, w = .text t →
    s₀.OnBefore form rs name v w

namespace Switched

theorem begin (hbegin : form.begin none = .ok s₀) : Switched form s₀ name [] s₀ := by
  obtain ⟨first, -, -, rfl⟩ := exists_of_begin hbegin
  have hnone : pickedBefore { current := .text first.id } name = [] := rfl
  refine ⟨rfl, rfl, ?_, ?_, ?_, ?_, ?_⟩
  · rw [hnone]
    exact .nil
  · intro t
    simp [hnone, picksIn]
  · rw [hnone]
    exact List.forall_mem_nil _
  · rw [hnone]
    exact List.forall_mem_nil _
  · rw [hnone]
    exact .nil

variable (h : Switched form s₀ name rs s)
include h

/-- Values that stay on stay in their order. -/
theorem still {s' : Session} (hs' : r.apply form s = s')
    (hsub : (s'.pickedBefore name).Sublist (s.pickedBefore name)) :
    (∀ v ∈ s'.pickedBefore name, ∃ k, IsGreatest (s₀.switchesOn form (rs ++ [r]) name v) k) ∧
      (s'.pickedBefore name).Pairwise fun v w => ∀ t, w = .text t →
        s₀.OnBefore form (rs ++ [r]) name v w := by
  obtain rfl := h.run
  constructor
  · intro v hv
    rw [switchesOn_concat_of_mem (hsub.subset hv)]
    exact h.dated v (hsub.subset hv)
  · refine (h.ordered.sublist hsub).imp_of_mem ?_
    intro v w hv hw hbefore t ht
    exact onBefore_concat (hsub.subset hv) (hsub.subset hw) (hbefore t ht)

/-- A value that is switched on comes last, in the list and in time. -/
theorem appended {s' : Session} (hs' : r.apply form s = s')
    (hon : s'.pickedBefore name = s.pickedBefore name ++ [v])
    (hoff : v.within (s.pickedBefore name) = false) :
    (∀ w ∈ s'.pickedBefore name, ∃ k, IsGreatest (s₀.switchesOn form (rs ++ [r]) name w) k) ∧
      (s'.pickedBefore name).Pairwise fun v w => ∀ t, w = .text t →
        s₀.OnBefore form (rs ++ [r]) name v w := by
  obtain rfl := h.run
  subst hs'
  -- what is on was switched on by an earlier request, and is not switched on by this one
  have hdated : ∀ w ∈ (s₀.run form rs).pickedBefore name,
      ∃ k < rs.length, IsGreatest (s₀.switchesOn form (rs ++ [r]) name w) k := by
    intro w hw
    obtain ⟨k, hk⟩ := h.dated w hw
    rw [switchesOn_concat_of_mem hw]
    exact ⟨k, lt_of_switchesOn hk.1, hk⟩
  have hlast : v ∉ (s₀.run form rs).pickedBefore name →
      IsGreatest (s₀.switchesOn form (rs ++ [r]) name v) rs.length := by
    intro hnew
    refine isGreatest_switchesOn_concat hnew ?_
    rw [hon]
    exact List.mem_append_right _ (List.mem_singleton_self v)
  rw [hon]
  constructor
  · intro w hw
    by_cases hold : w ∈ (s₀.run form rs).pickedBefore name
    · obtain ⟨k, -, hk⟩ := hdated w hold
      exact ⟨k, hk⟩
    · obtain rfl : w = v := by simpa [hold] using hw
      exact ⟨_, hlast hold⟩
  · rw [List.pairwise_append]
    refine ⟨h.ordered.imp_of_mem ?_, List.pairwise_singleton _ _, ?_⟩
    · intro u w hu hw hbefore t ht
      exact onBefore_concat hu hw (hbefore t ht)
    · intro u hu w hw t ht
      obtain rfl := List.mem_singleton.1 hw
      subst ht
      obtain ⟨k, hk, hgreatest⟩ := hdated u hu
      refine ⟨k, rs.length, hgreatest, hlast ?_, hk⟩
      intro hmem
      rw [Value.within_texts_iff.2 hmem] at hoff
      cases hoff

theorem run_concat : s₀.run form (rs ++ [r]) = r.apply form s := by
  rw [run_append, h.run]
  rfl

theorem picks_concat : s₀.picksIn form name (rs ++ [r]) =
    s₀.picksIn form name rs ++ (r.pick? form s name).toList := by
  rw [picksIn_concat, h.run]

/-- A request that picks nothing in the field. -/
theorem unpicked (hr : r.isBrowsing = true) (hpick : r.pick? form s name = none) :
    Switched form s₀ name (rs ++ [r]) (r.apply form s) := by
  have hpicks : s₀.picksIn form name (rs ++ [r]) = s₀.picksIn form name rs := by
    simp [h.picks_concat, hpick]
  have hstored := get?_apply_of_pick?_none hr hpick
  have hchosen := pickedBefore_congr hstored
  have hsub : ((r.apply form s).pickedBefore name).Sublist (s.pickedBefore name) := by
    rw [hchosen]
  obtain ⟨hdated, hordered⟩ := h.still rfl hsub
  refine ⟨h.run_concat, ?_, ?_, ?_, ?_, hdated, hordered⟩
  · rw [hstored, hpicks, hchosen]
    exact h.stored
  · rw [hchosen]
    exact h.distinct
  · rw [hpicks, hchosen]
    exact h.odd
  · rw [hpicks, hchosen]
    exact h.picked

section Pick

variable (hpick : r.pick? form s name = some v)
include hpick

theorem picks_of_pick : s₀.picksIn form name (rs ++ [r]) = s₀.picksIn form name rs ++ [v] := by
  simp [h.picks_concat, hpick]

theorem count_of_pick (t : String) : (s₀.picksIn form name (rs ++ [r])).count (.text t) =
    (s₀.picksIn form name rs).count (.text t) + if v = .text t then 1 else 0 := by
  rw [h.picks_of_pick hpick, List.count_append, List.count_singleton]
  simp

variable (hmultiple : form.MultipleUnder name)
include hmultiple

theorem stored_of_pick : Members.get? (r.apply form s).answers name =
    if s₀.picksIn form name (rs ++ [r]) = [] then none
    else some (.list ((r.apply form s).pickedBefore name)) := by
  have hstored := get?_apply_of_pick? hmultiple hpick
  rw [h.picks_of_pick hpick, if_neg (List.concat_ne_nil _ _), hstored,
    pickedBefore_of_get? hstored]

/-- A request that switches a value off. -/
theorem off (hon : v.within (s.pickedBefore name) = true) :
    Switched form s₀ name (rs ++ [r]) (r.apply form s) := by
  have hchosen := pickedBefore_of_get? (get?_apply_of_pick? hmultiple hpick)
  rw [switch_eq, if_pos hon] at hchosen
  have hsub := Value.removeFrom_sublist v (s.pickedBefore name)
  obtain ⟨hdated, hordered⟩ := h.still rfl (hchosen ▸ hsub)
  refine ⟨h.run_concat, h.stored_of_pick hpick hmultiple, ?_, ?_, ?_, hdated, hordered⟩
  · rw [hchosen]
    exact h.distinct.sublist hsub
  · intro t
    rw [hchosen, Value.mem_removeFrom_text h.distinct, h.count_of_pick hpick, h.odd]
    by_cases ht : v = .text t
    · subst ht
      have hodd := (h.odd t).1 (Value.within_texts_iff.1 hon)
      simp [Nat.odd_add_one, hodd]
    · simp [ht]
  · intro w hw
    rw [hchosen] at hw
    rw [h.picks_of_pick hpick]
    exact List.mem_append_left _ (h.picked w (hsub.subset hw))

/-- A request that switches a value on. -/
theorem on (hoff : v.within (s.pickedBefore name) = false) :
    Switched form s₀ name (rs ++ [r]) (r.apply form s) := by
  have hchosen := pickedBefore_of_get? (get?_apply_of_pick? hmultiple hpick)
  rw [switch_eq, if_neg (Bool.eq_false_iff.1 hoff)] at hchosen
  obtain ⟨hdated, hordered⟩ := h.appended rfl hchosen hoff
  refine ⟨h.run_concat, h.stored_of_pick hpick hmultiple, ?_, ?_, ?_, hdated, hordered⟩
  · rw [hchosen, List.pairwise_append]
    refine ⟨h.distinct, List.pairwise_singleton _ _, ?_⟩
    intro u hu w hw
    obtain rfl := List.mem_singleton.1 hw
    simpa using List.any_eq_false.1 hoff u hu
  · intro t
    rw [hchosen, List.mem_append, List.mem_singleton, h.count_of_pick hpick, h.odd]
    by_cases ht : v = .text t
    · subst ht
      have hnot : ¬ Odd ((s₀.picksIn form name rs).count (.text t)) := by
        intro hodd
        rw [Value.within_texts_iff.2 ((h.odd t).2 hodd)] at hoff
        cases hoff
      simp [Nat.odd_add_one, hnot]
    · simp [ht, Ne.symm ht]
  · rw [hchosen, h.picks_of_pick hpick]
    exact List.append_subset.2 ⟨List.subset_append_of_subset_left _ h.picked,
      List.subset_append_right _ _⟩

end Pick

/-- One request more. -/
theorem concat (hmultiple : form.MultipleUnder name) (hr : r.isBrowsing = true) :
    Switched form s₀ name (rs ++ [r]) (r.apply form s) := by
  cases hpick : r.pick? form s name with
  | none => exact h.unpicked hr hpick
  | some v =>
    cases hwithin : v.within (s.pickedBefore name) with
    | true => exact h.off hpick hmultiple hwithin
    | false => exact h.on hpick hmultiple hwithin

end Switched

/-- A run from a fresh session. -/
theorem switched_run (hmultiple : form.MultipleUnder name) (hbegin : form.begin none = .ok s₀)
    (hrs : ∀ r ∈ rs, r.isBrowsing = true) : Switched form s₀ name rs (s₀.run form rs) := by
  induction rs using List.reverseRecOn with
  | nil => exact .begin hbegin
  | append_singleton rs r ih =>
    have hbefore := ih fun q hq => hrs q (List.mem_append_left _ hq)
    rw [run_append]
    exact hbefore.concat hmultiple (hrs r (by simp))

/-! ### The result -/

/-- In a run of picks and moves from a fresh session, a field of several choices has no answer as
long as nothing is picked in it. After that the answer is a list of values picked, no two of which
agree. It has a text if it was picked an odd number of times, and of two texts the one that was last
switched on before the other stands before it. -/
theorem switched_odd_picks (hmultiple : form.MultipleUnder name)
    (hbegin : form.begin none = .ok s₀) (hrs : ∀ r ∈ rs, r.isBrowsing = true) :
    (Members.has (s₀.run form rs).answers name = false ↔ s₀.picksIn form name rs = []) ∧
      ∀ stored, Members.get? (s₀.run form rs).answers name = some stored →
        ∃ chosen, stored = .list chosen ∧ chosen.Pairwise (fun v w => v.agrees w = false) ∧
          (∀ v ∈ chosen, v ∈ s₀.picksIn form name rs) ∧
          (∀ t : String, .text t ∈ chosen ↔ Odd ((s₀.picksIn form name rs).count (.text t))) ∧
          ∀ t u : String, [.text t, .text u].Sublist chosen →
            s₀.OnBefore form rs name (.text t) (.text u) := by
  have h := switched_run hmultiple hbegin hrs
  have hstored := h.stored
  by_cases hnone : s₀.picksIn form name rs = []
  · rw [if_pos hnone] at hstored
    refine ⟨iff_of_true (by simp [Members.has, hstored]) hnone, ?_⟩
    intro stored hget
    rw [hstored] at hget
    cases hget
  · rw [if_neg hnone] at hstored
    refine ⟨iff_of_false (by simp [Members.has, hstored]) hnone, ?_⟩
    intro stored hget
    rw [hstored] at hget
    obtain rfl := Option.some.inj hget
    refine ⟨_, rfl, h.distinct, h.picked, h.odd, ?_⟩
    intro t u hsub
    exact List.pairwise_iff_forall_sublist.1 h.ordered hsub u rfl

end Session

/-- A form that asks for extras among nested fields of its first step. One of them, and a choice of
another field, name a step that the form does not have. -/
def pizzeria : Form where
  name := "Pizzeria"
  steps := [
    { id := "step1", title := "Pizza"
      fields := [
        .mk { id := "size", kind := .radio, label := "Size", choices := [
          { id := "large", label := "Large", value := "large", nextField := "oven" }] } [],
        .mk { id := "top", kind := .text, label := "Top" } [
          .mk { id := "extras", kind := .checkbox, label := "Extras", choices := [
            { id := "olives", label := "Olives", value := "olives", nextField := "garden" },
            { id := "capers", label := "Capers", value := "capers" }] } []]] },
    { id := "bill", title := "Bill", isLast := true }]

/-- Olives are picked three times, capers once; a pick on the bill is none. -/
def pizzeriaRun : List Request :=
  [.select "extras" "olives", .select "extras" "capers", .enter "top", .select "extras" "olives",
    .select "size" "large", .jump "bill", .select "extras" "capers", .retreat, .enter "top",
    .select "extras" "olives", .advance]

theorem switched_odd_picks_pizzeria :
    pizzeria.MultipleUnder "extras" ∧ (∀ r ∈ pizzeriaRun, r.isBrowsing = true) ∧
      ∃ s₀, pizzeria.begin none = .ok s₀ ∧
        s₀.picksIn pizzeria "extras" pizzeriaRun = ["olives", "capers", "olives", "olives"] ∧
        Members.get? (s₀.run pizzeria pizzeriaRun).answers "extras" =
          some (.list ["capers", "olives"]) ∧
        s₀.OnBefore pizzeria pizzeriaRun "extras" "capers" "olives" := by
  have hmultiple : pizzeria.MultipleUnder "extras" := by
    simp [Form.MultipleUnder, pizzeria, Field.deepAll, Field.deep, Field.id, Field.question,
      FieldKind.isMultiple]
  have hrs : ∀ r ∈ pizzeriaRun, r.isBrowsing = true := by decide
  have hpicks : Session.picksIn pizzeria "extras" { current := "step1" } pizzeriaRun =
      ["olives", "capers", "olives", "olives"] := by decide +kernel
  have hstored : Members.get? (Session.run pizzeria { current := "step1" } pizzeriaRun).answers
      "extras" = some (.list ["capers", "olives"]) := by decide +kernel
  refine ⟨hmultiple, hrs, { current := "step1" }, rfl, hpicks, hstored, ?_⟩
  obtain ⟨chosen, hchosen, -, -, -, hordered⟩ :=
    (Session.switched_odd_picks hmultiple rfl hrs).2 _ hstored
  cases hchosen
  exact hordered "capers" "olives" (List.Sublist.refl _)

end BranchForm
