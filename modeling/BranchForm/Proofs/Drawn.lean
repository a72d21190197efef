import BranchForm.Proofs.Building

/-!
# Ids that a builder draws

A builder counts its ids up. No number is drawn twice, not even after a call that was refused. But
the source knows nothing of the tree: an id that it draws may be there already, because a caller
named it, or because the tree was made with another source that counted the same numbers.

* `IdSource.counting` is a source at a number; `IdSource.draw_inj` : the ids of two numbers differ;
* `Builder.exists_counting_after` : what a run of calls brings in is named or was drawn under a
  number that is past;
* `Builder.add_repeats_iff` and `Builder.add_of_fresh` say how an addition without an id ends;
* `drawn_id_taken_iff` is the result on whole runs.
-/

namespace BranchForm

open OptionTree

namespace IdSource

/-- The source that counts on from a number. -/
def counting (stem : Value) (n : Nat) : IdSource := { stem, next := .whole n }

theorem draw_counting (stem : Value) (n : Nat) :
    (counting stem n).draw.2 = counting stem (n + 1) := rfl

theorem toList_draw (stem : Value) (n : Nat) :
    (counting stem n).draw.1.toList = stem.display.toList ++ '-' :: Nat.toDigits 10 n := by
  have h : (counting stem n).draw.1 = stem.display ++ ("-" ++ n.repr) := by
    simp [counting, draw, Counter.text, String.append_assoc, toString, Int.repr]
  rw [h]
  simp [Nat.toList_repr]

/-- No id is drawn twice. -/
theorem draw_inj {stem : Value} {m n : Nat}
    (h : (counting stem m).draw.1 = (counting stem n).draw.1) : m = n := by
  have hl := congrArg String.toList h
  rw [toList_draw, toList_draw, List.append_cancel_left_eq, List.cons.injEq] at hl
  have hn := congrArg (Nat.ofDigitChars 10 · 0) hl.2
  simpa using hn

end IdSource

namespace Builder

variable {b : Builder} {c : Call} {cs : List Call} {stem : Value} {n : Nat}

theorem exists_counting_source (hids : b.ids = .counting stem n) (c : Call) :
    ∃ m, n ≤ m ∧ (c.draws = true → n < m) ∧ c.source b.ids = .counting stem m := by
  cases hdraws : c.draws with
  | true => exact ⟨n + 1, n.le_succ, fun _ => n.lt_succ_self, by
      rw [Call.source, hdraws, hids, if_pos rfl, IdSource.draw_counting]⟩
  | false => exact ⟨n, le_rfl, fun h => absurd h Bool.false_ne_true, by rw [Call.source, hdraws, hids]; rfl⟩

/-- **What a run brings in is named, or was drawn under a number that is past.** -/
theorem exists_counting_after (hids : b.ids = .counting stem n) (cs : List Call) :
    ∃ m, n ≤ m ∧ (b.after cs).ids = .counting stem m ∧
      ∀ i ∈ idsAll (b.brought cs), i ∈ b.named cs ∨
        ∃ k < m, i = .text (IdSource.counting stem k).draw.1 := by
  induction cs generalizing b n with
  | nil => exact ⟨n, le_rfl, hids, nofun⟩
  | cons c cs ih =>
    obtain ⟨next, hle, hlt, hsource⟩ := exists_counting_source hids c
    rcases call_cases b c with ⟨tree, -, hok, -, hcall⟩ | ⟨e, herror, -, hcall⟩
    · obtain ⟨m, hnext, hafter, hbrought⟩ := ih (hcall.trans hsource)
      refine ⟨m, hle.trans hnext, hafter, fun i hi => ?_⟩
      rw [brought_cons_of_ok hok, mem_idsAll, List.exists_mem_cons_iff, ← mem_idsAll] at hi
      rw [named_cons_of_ok hok, List.mem_append]
      rcases hi with hi | hi
      · rcases Call.mem_ids_brings.1 hi with hi | ⟨hdraws, hi⟩
        · exact .inl (.inl hi)
        · exact .inr ⟨n, (hlt hdraws).trans_le hnext, hids ▸ hi⟩
      · exact (hbrought i hi).imp_left .inr
    · obtain ⟨m, hnext, hafter, hbrought⟩ := ih (hcall.trans hsource)
      rw [brought_cons_of_error herror, named_cons_of_error herror]
      exact ⟨m, hle.trans hnext, hafter, hbrought⟩

theorem named_subset (b : Builder) (cs : List Call) : b.named cs ⊆ idsAll (b.brought cs) := by
  intro i hi
  obtain ⟨m, hm, hi⟩ := List.mem_flatMap.1 hi
  exact mem_idsAll.2 ⟨_, List.mem_map_of_mem hm, Call.mem_ids_brings.2 (.inl hi)⟩

/-- The id that is drawn next. -/
def nextId (b : Builder) : Value := .text b.ids.draw.1

/-- The next id is in a built tree only if it was there at the start or was named since. -/
theorem nextId_mem_iff (hids : b.ids = .counting stem n) :
    (b.after cs).nextId ∈ (b.after cs).tree.ids ↔
      (b.after cs).nextId ∈ b.tree.ids ∨ (b.after cs).nextId ∈ b.named cs := by
  rw [(ids_after b cs).mem_iff, List.mem_append]
  refine or_congr_right ⟨fun hmem => ?_, fun hmem => named_subset b cs hmem⟩
  obtain ⟨m, -, hafter, hbrought⟩ := exists_counting_after hids cs
  rcases hbrought _ hmem with hnamed | ⟨k, hk, heq⟩
  · exact hnamed
  · rw [nextId, hafter] at heq
    exact absurd (IdSource.draw_inj (Value.text.inj heq)) hk.ne'

theorem texts_next (b : Builder) (o : NewOption) :
    ∀ i ∈ (newOption b.nextId o).ids, ∃ s, i = .text s := by
  rw [ids_newOption, List.forall_mem_singleton]
  exact ⟨_, rfl⟩

/-! ### An addition without an id -/

section Unnamed

variable {optionId : Value} (hunnamed : optionId.truthy = false) (o : NewOption)
  (parent position : Value)
include hunnamed

theorem add_of_unnamed (b : Builder) :
    b.add o parent optionId position =
      match Draft.insert (some b.tree) (parent.orElse b.tree.id) (some (newOption b.nextId o))
          position with
      | .ok tree => ({ tree, ids := b.ids.draw.2, lastId := b.nextId }, .ok ())
      | .error e => ({ b with ids := b.ids.draw.2 }, .error e) := by
  have hdrawn : optionId.orElse (.text b.ids.draw.1) = b.nextId := by
    simp [Value.orElse, hunnamed, nextId]
  have hcall := call_eq b (.add o parent optionId position)
  simp only [inserted, Call.brings, hdrawn, Call.source, Call.draws, hunnamed, Bool.not_false,
    ↓reduceIte] at hcall
  exact hcall

variable (htexts : ∀ i ∈ b.tree.ids, ∃ s, i = .text s)
include htexts

/-- An addition without an id is refused for a repeated id exactly if the id it draws is there. -/
theorem add_repeats_iff :
    (b.add o parent optionId position).2 =
        .error (.duplicateIds [b.ids.draw.1] (parent.orElse b.tree.id)) ↔
      b.nextId ∈ b.tree.ids := by
  rw [add_of_unnamed hunnamed]
  constructor
  · intro h
    split at h
    · cases h
    · rename_i e hinsert
      rw [Except.error.inj h] at hinsert
      obtain ⟨i, hi, hmem⟩ := Draft.exists_repeated htexts (texts_next b o) hinsert
      rw [ids_newOption, List.mem_singleton] at hi
      rwa [← hi]
  · intro hmem
    have hi : b.nextId ∈ (newOption b.nextId o).ids := by
      rw [ids_newOption]
      exact List.mem_singleton_self _
    obtain ⟨names, hnames, hinsert⟩ :=
      Draft.insert_of_repeated htexts (texts_next b o) (parent.orElse b.tree.id) position hi hmem
    have hwithin : b.nextId.within b.tree.ids = true := Value.within_texts_iff.2 hmem
    rw [ids_newOption, List.filter_singleton, hwithin, cond_true] at hnames
    have hname : names = [b.ids.draw.1] := by
      refine List.map_injective_iff.2 (fun _ _ => Value.text.inj) (hnames.symm.trans ?_)
      rfl
    rw [hinsert, hname]

/-- An addition without an id is made if the id it draws is not there, but the parent is. -/
theorem add_of_fresh (hfresh : b.nextId ∉ b.tree.ids)
    (hparent : parent.truthy = false ∨ parent ∈ b.tree.ids) (hposition : position.IsPosition) :
    (b.add o parent optionId position).2 = .ok () ∧
      (b.add o parent optionId position).1.lastId = b.nextId ∧
      (b.add o parent optionId position).1.tree.ids.Perm (b.tree.ids ++ [b.nextId]) := by
  have hother : ∀ i ∈ (newOption b.nextId o).ids, i ∉ b.tree.ids := by
    rwa [ids_newOption, List.forall_mem_singleton]
  obtain ⟨tree, hinsert⟩ :=
    (Draft.insert_ok_iff htexts (texts_next b o) hposition).2 ⟨parent_mem_iff.2 hparent, hother⟩
  have hids : tree.ids.Perm (b.tree.ids ++ (newOption b.nextId o).ids) :=
    Draft.ids_insert hinsert
  rw [add_of_unnamed hunnamed, hinsert]
  refine ⟨rfl, rfl, ?_⟩
  rwa [ids_newOption] at hids

end Unnamed

end Builder

/-- **When a drawn id is taken.** After any run of calls on a builder that counts its ids, refused
ones included, the next addition without an id is refused for a repeated id exactly if the tree had
the id at the start or a call since then has named it; the ids drawn in between are never in the
way. If it is free, the addition is made under it. -/
theorem drawn_id_taken_iff {b : Builder} {stem : Value} {n : Nat}
    (hids : b.ids = .counting stem n) (htexts : ∀ i ∈ b.tree.ids, ∃ s, i = .text s)
    {cs : List Builder.Call} (hcs : ∀ c ∈ cs, c.Textual) {optionId : Value}
    (hunnamed : optionId.truthy = false) (o : NewOption) (parent position : Value) :
    (((b.after cs).add o parent optionId position).2 =
        .error (.duplicateIds [(b.after cs).ids.draw.1] (parent.orElse (b.after cs).tree.id)) ↔
      (b.after cs).nextId ∈ b.tree.ids ∨ (b.after cs).nextId ∈ b.named cs) ∧
    (¬ ((b.after cs).nextId ∈ b.tree.ids ∨ (b.after cs).nextId ∈ b.named cs) →
      parent.truthy = false ∨ parent ∈ (b.after cs).tree.ids → position.IsPosition →
      ((b.after cs).add o parent optionId position).2 = .ok () ∧
        ((b.after cs).add o parent optionId position).1.lastId = (b.after cs).nextId ∧
        ((b.after cs).add o parent optionId position).1.tree.ids.Perm
          ((b.after cs).tree.ids ++ [(b.after cs).nextId])) := by
  have htexts' := Builder.texts_after htexts hcs
  rw [← Builder.nextId_mem_iff hids]
  exact ⟨Builder.add_repeats_iff hunnamed o parent position htexts',
    Builder.add_of_fresh hunnamed o parent position htexts'⟩

/-- A builder of a park, which draws the id of its root. -/
def parkBuilder : Builder := .start "Park" {} .null

/-- A run of calls: an oak with an id, an elm without one, and an ivy, which is refused for want of
a wall. -/
def planting : List Builder.Call :=
  [.add { label := "Oak" } .null "node-4" .null, .add { label := "Elm" } .null .null .null,
    .add { label := "Ivy" } "wall" .null .null]

/-- An ash without an id. -/
def ash : Builder.Call := .add { label := "Ash" } .null .null .null

/-- The id named for the oak is in the way of the ash, but not of the fir after it. -/
theorem drawn_id_taken_park :
    ((parkBuilder.after planting).add { label := "Ash" } .null .null .null).2 =
        .error (.duplicateIds ["node-4"] "node-1") ∧
      ((parkBuilder.after (planting ++ [ash])).add { label := "Fir" } "node-2" .null (.int 0)).2 =
        .ok () := by
  have hids : parkBuilder.tree.ids = ["node-1"].map Value.text := by cbv
  have htexts : ∀ i ∈ parkBuilder.tree.ids, ∃ s, i = .text s := by simp [hids]
  have hunnamed : Value.truthy .null = false := rfl
  have hplanting : ∀ c ∈ planting, c.Textual := by
    simp [planting, Builder.Call.Textual, Builder.Call.named, Value.truthy]
  have hmore : ∀ c ∈ planting ++ [ash], c.Textual := by
    simp [planting, ash, Builder.Call.Textual, Builder.Call.named, Value.truthy]
  constructor
  · have hnext : (parkBuilder.after planting).nextId = "node-4" := by cbv
    have hnamed : parkBuilder.named planting = [.text "node-4"] := by cbv
    have hroot : (parkBuilder.after planting).tree.id = "node-1" := by cbv
    have hdrawn : (parkBuilder.after planting).ids.draw.1 = "node-4" := by cbv
    have htaken := (drawn_id_taken_iff (n := 2) rfl htexts hplanting hunnamed { label := "Ash" }
      .null .null).1.2 (.inr (by rw [hnext, hnamed]; exact List.mem_cons_self))
    rw [hdrawn, hroot] at htaken
    exact htaken
  · have hnext : (parkBuilder.after (planting ++ [ash])).nextId = "node-5" := by cbv
    have hnamed : parkBuilder.named (planting ++ [ash]) = [.text "node-4"] := by cbv
    have hplanted : (parkBuilder.after (planting ++ [ash])).tree.ids =
        ["node-1", "node-4", "node-2"].map Value.text := by cbv
    refine ((drawn_id_taken_iff (n := 2) rfl htexts hmore hunnamed { label := "Fir" } "node-2"
      (.int 0)).2 ?_ (.inr ?_) (.inr ⟨0, rfl⟩)).1
    · rw [hnext, hids, hnamed]
      decide
    · rw [hplanted]
      decide

/-- The tree that a builder makes of a root and an oak without an id. -/
def grove : OptionTree := (parkBuilder.after [.add { label := "Oak" } .null .null .null]).tree

/-- A drawn id is taken on a fresh builder once it has been named, and at once on a builder that
goes on with what another one made, for it counts from the start. -/
theorem drawn_id_taken_again :
    (parkBuilder.add { label := "Oak" } .null "node-2" .null).2 = .ok () ∧
      ((parkBuilder.add { label := "Oak" } .null "node-2" .null).1.add
        { label := "Elm" } .null .null .null).2 = .error (.duplicateIds ["node-2"] "node-1") ∧
      Builder.ofDraft (some grove) {} = .ok { tree := grove } ∧
      (Builder.add { tree := grove } { label := "Elm" } .null .null .null).2 =
        .error (.duplicateIds ["node-1"] "node-1") :=
  ⟨by cbv, by cbv, rfl, by cbv⟩

end BranchForm
