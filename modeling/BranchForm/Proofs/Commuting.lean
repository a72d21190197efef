import BranchForm.Proofs.Amending
import Mathlib

/-!
# Edits that commute

Two authors who work on different nodes need not agree on who goes first. Each edit looks for the
first node with its id from the top and builds the way down to it anew, so it may meet what the other
one has put there: above its own node, below it, or on the way.

* `LetsThrough` is what the replacement of one node needs to do for an edit of another node, and
  `Undisturbed` what comes of it; `undisturbed_tree` follows the tree, with one case for a node
  (`Undisturbed.node_after`) and one for a sequence (`Undisturbed.cons_after`);
* `Draft.amend_comm` : amendments of different nodes commute if both let each other through;
  `Patch.letsThrough` and `OptionTree.letsThrough_grown` : updates and insertions do;
* a removal does not, as it takes the other node away with what is below it. `OptionTree.withoutAll`
  takes out all nodes of an id, in any order (`OptionTree.withoutAll_comm`), and among distinct ids
  this is what a removal does (`OptionTree.amend_eq_withoutAll`);
* `Edit.Independent` are the pairs of edits that do not depend on each other, and
  `Edit.commute_of_independent` is the result.
-/

namespace BranchForm

open OptionTree

/-! ### Edits of different nodes -/

/-- No value agrees with both of two ids. -/
def Value.Apart (i j : Value) : Prop := ∀ v : Value, v.agrees i = true → v.agrees j = false

theorem Value.Apart.symm {i j : Value} (h : i.Apart j) : j.Apart i := by
  intro v hj
  by_contra hi
  rw [h v (Bool.eq_true_of_not_eq_false hi)] at hj
  cases hj

theorem Value.apart_texts {s t : String} (h : s ≠ t) : (Value.text s).Apart (.text t) := by
  intro v hs
  rw [Value.agrees_text_iff.1 hs, Value.agrees_text]
  exact decide_eq_false h

/-- What replaces a node of one id lets an edit of another id through: the edit does in it what it
does below the node. -/
def LetsThrough (i : Value) (f : OptionTree → List OptionTree) (j : Value)
    (g : OptionTree → List OptionTree) : Prop :=
  ∀ d cs, d.id.agrees i = true →
    replaceFirstIn j g (f (.node d cs)) = (replaceFirstIn j g cs).map fun ds => f (.node d ds)

/-- Each of two edits of some trees finds its node after the other one as it does before, and comes
to the same. -/
structure Undisturbed (i : Value) (f : OptionTree → List OptionTree) (j : Value)
    (g : OptionTree → List OptionTree) (ts : List OptionTree) : Prop where
  /-- The second edit is made after the first. -/
  after : replaceFirstIn j g (amend i f ts) = (replaceFirstIn j g ts).map (amend i f)
  /-- The second edit is made before the first. -/
  before : replaceFirstIn i f (amend j g ts) = (replaceFirstIn i f ts).map (amend j g)

namespace Undisturbed

variable {i j : Value} {f g : OptionTree → List OptionTree} {t : OptionTree} {ts : List OptionTree}

theorem symm (h : Undisturbed i f j g ts) : Undisturbed j g i f ts := ⟨h.before, h.after⟩

theorem amend_comm (h : Undisturbed i f j g ts) :
    amend j g (amend i f ts) = amend i f (amend j g ts) :=
  calc amend j g (amend i f ts)
      = ((replaceFirstIn j g ts).map (amend i f)).getD (amend i f ts) := by rw [← h.after, amend]
    _ = amend i f (amend j g ts) := Option.getD_map ..

/-- Edits that do not disturb each other among the children of a node do not do so with the node. -/
theorem node_after (hij : i.Apart j) (hf : LetsThrough i f j g) (hg : LetsThrough j g i f)
    (d : Node) {cs : List OptionTree} (h : Undisturbed i f j g cs) :
    replaceFirstIn j g (amend i f [.node d cs]) =
      (replaceFirstIn j g [.node d cs]).map (amend i f) := by
  by_cases hi : d.id.agrees i = true
  -- the first edit is made here and lets the second one through
  · have hj := hij d.id hi
    rw [amend_top hi, hf d cs hi, replaceFirstIn_below hj, Option.map_map]
    refine congrArg (Option.map · _) (funext fun ds => ?_)
    exact (amend_top hi ds).symm
  · have hbelow := Bool.eq_false_iff.2 hi
    rw [amend_below hbelow]
    by_cases hj : d.id.agrees j = true
    -- the second one is made here and lets the first one through
    · rw [replaceFirstIn_top hj, replaceFirstIn_top hj, Option.map_some, amend, amend, hg d cs hj,
        Option.getD_map]
    · have hbelow' := Bool.eq_false_iff.2 hj
      rw [replaceFirstIn_below hbelow', replaceFirstIn_below hbelow', h.after, Option.map_map,
        Option.map_map]
      refine congrArg (Option.map · _) (funext fun ds => ?_)
      exact (amend_below hbelow ds).symm

/-- Edits that do not disturb each other in a tree and in those behind it do not do so in all. -/
theorem cons_after (h : Undisturbed i f j g [t]) (hs : Undisturbed i f j g ts) :
    replaceFirstIn j g (amend i f (t :: ts)) = (replaceFirstIn j g (t :: ts)).map (amend i f) := by
  have hafter := h.after
  have hbefore := h.before
  rw [← List.singleton_append]
  cases hi : replaceFirstIn i f [t] with
  | some us =>
    rw [amend_of_some hi] at hafter
    rw [amend_append_of_some hi]
    cases hj : replaceFirstIn j g [t] with
    | some ws =>
      -- both are made in the first tree
      rw [hj, Option.map_some] at hafter
      rw [amend_of_some hj, hi, Option.map_some] at hbefore
      rw [replaceFirstIn_append_of_some hafter, replaceFirstIn_append_of_some hj, Option.map_some,
        amend_append_of_some hbefore, amend_of_some hbefore]
    | none =>
      rw [hj, Option.map_none] at hafter
      rw [replaceFirstIn_append_of_none hafter, replaceFirstIn_append_of_none hj, Option.map_map]
      refine congrArg (Option.map · _) (funext fun xs => ?_)
      exact (amend_append_of_some hi xs).symm
  | none =>
    rw [amend_append_of_none hi]
    cases hj : replaceFirstIn j g [t] with
    | some ws =>
      rw [amend_of_some hj, hi, Option.map_none] at hbefore
      rw [replaceFirstIn_append_of_some hj, replaceFirstIn_append_of_some hj, Option.map_some,
        amend_append_of_none hbefore]
    | none =>
      -- both are made behind the first tree
      rw [replaceFirstIn_append_of_none hj, replaceFirstIn_append_of_none hj, hs.after,
        Option.map_map, Option.map_map]
      refine congrArg (Option.map · _) (funext fun xs => ?_)
      exact (amend_append_of_none hi xs).symm

end Undisturbed

section Undisturbed

variable {i j : Value} {f g : OptionTree → List OptionTree}

mutual

/-- Edits that let each other through do not disturb each other, wherever their nodes stand. -/
theorem undisturbed_tree (hij : i.Apart j) (hf : LetsThrough i f j g) (hg : LetsThrough j g i f)
    (t : OptionTree) : Undisturbed i f j g [t] := by
  match t with
  | .node d cs =>
    have hbelow := undisturbed_trees hij hf hg cs
    exact ⟨hbelow.node_after hij hf hg d, hbelow.symm.node_after hij.symm hg hf d⟩

theorem undisturbed_trees (hij : i.Apart j) (hf : LetsThrough i f j g) (hg : LetsThrough j g i f)
    (ts : List OptionTree) : Undisturbed i f j g ts := by
  match ts with
  | [] => exact ⟨rfl, rfl⟩
  | t :: ts =>
    have hfirst := undisturbed_tree hij hf hg t
    have hrest := undisturbed_trees hij hf hg ts
    exact ⟨hfirst.cons_after hrest, hfirst.symm.cons_after hrest.symm⟩

end

/-- **Amendments of different nodes commute** if they let each other through. -/
theorem Draft.amend_comm (hij : i.Apart j) (hf : LetsThrough i f j g) (hg : LetsThrough j g i f)
    (hf' : ∀ s, (f s).length ≤ 1) (hg' : ∀ s, (g s).length ≤ 1) (draft : Draft) :
    (draft.amend i f).amend j g = (draft.amend j g).amend i f := by
  cases draft with
  | none => rfl
  | some t => rw [amend_amend hf', amend_amend hg', (undisturbed_tree hij hf hg t).amend_comm]

end Undisturbed

/-! ### Updates -/

/-- A patch that spares the ids and the children lets every edit of another node through. -/
theorem Patch.letsThrough {p : Patch} (hid : p.id = none) (hchildren : p.children = none)
    (kind : Option NodeKind) {i j : Value} (hij : i.Apart j) (g : OptionTree → List OptionTree) :
    LetsThrough i (fun s => [p.apply kind s]) j g := by
  intro d cs hi
  have hbelow (e : Node) (he : e.id = d.id) : replaceFirstIn j g [.node e cs] =
      (replaceFirstIn j g cs).map fun ds => [.node e ds] := by
    refine replaceFirstIn_below ?_ cs
    rw [he]
    exact hij d.id hi
  simp only [apply, hid, hchildren, Option.getD_none]
  exact hbelow _ rfl

/-! ### Insertions -/

namespace OptionTree

variable {i j : Value} {g : OptionTree → List OptionTree} {new : OptionTree}

theorem exists_singleton_of_replaceFirst (hg : ∀ s, ∃ u, g s = [u]) {t : OptionTree}
    {us : List OptionTree} (h : t.replaceFirst j g = some us) : ∃ u, us = [u] := by
  obtain ⟨d, cs⟩ := t
  rw [replaceFirst] at h
  split at h
  · obtain ⟨u, hu⟩ := hg (.node d cs)
    exact ⟨u, by rw [← Option.some.inj h, hu]⟩
  · obtain ⟨ds, -, hout⟩ := Option.map_eq_some_iff.1 h
    exact ⟨_, hout.symm⟩

/-- An edit that puts one tree for one leaves the number of trees. -/
theorem length_of_replaceFirstIn (hg : ∀ s, ∃ u, g s = [u]) {cs ds : List OptionTree}
    (h : replaceFirstIn j g cs = some ds) : ds.length = cs.length := by
  induction cs generalizing ds with
  | nil => cases h
  | cons c cs ih =>
    rw [replaceFirstIn] at h
    cases hc : c.replaceFirst j g with
    | some us =>
      obtain ⟨u, rfl⟩ := exists_singleton_of_replaceFirst hg hc
      rw [hc] at h
      cases h
      simp
    | none =>
      rw [hc] at h
      obtain ⟨us, hus, rfl⟩ := Option.map_eq_some_iff.1 h
      simp [ih hus]

/-- A tree without the id may be put in before or after an edit. -/
theorem replaceFirstIn_insertIdx (hg : ∀ s, ∃ u, g s = [u])
    (hnew : ∀ u ∈ preorder new, u.id.agrees j = false) (k : Nat) (cs : List OptionTree) :
    replaceFirstIn j g (cs.insertIdx k new) =
      (replaceFirstIn j g cs).map fun ds => ds.insertIdx k new := by
  induction cs generalizing k with
  | nil =>
    cases k with
    | zero => simp [replaceFirstIn, replaceFirst_of_absent hnew]
    | succ k => simp [replaceFirstIn]
  | cons c cs ih =>
    cases k with
    | zero =>
      rw [List.insertIdx_zero, replaceFirstIn, replaceFirst_of_absent hnew]
      rfl
    | succ k =>
      rw [List.insertIdx_succ_cons, replaceFirstIn, replaceFirstIn, ih]
      cases hc : c.replaceFirst j g with
      | some us =>
        obtain ⟨u, rfl⟩ := exists_singleton_of_replaceFirst hg hc
        rfl
      | none => simp [Function.comp_def]

/-- A node with one more child lets an edit through that puts one tree for one, unless the edit is
of a node of the new tree. -/
theorem letsThrough_grown (hij : i.Apart j) (hg : ∀ s, ∃ u, g s = [u])
    (hnew : ∀ u ∈ preorder new, u.id.agrees j = false) (position : Value) :
    LetsThrough i (fun s => [s.grown new position]) j g := by
  intro d cs hi
  simp only [grown, withChildren, data, children]
  rw [replaceFirstIn_below (hij d.id hi), replaceFirstIn_insertIdx hg hnew, Option.map_map]
  -- the number of children stays, so the position names the same index before and after the edit
  refine Option.map_congr fun ds hds => ?_
  rw [length_of_replaceFirstIn hg hds]
  rfl

end OptionTree

/-! ### Removals -/

namespace OptionTree

mutual

/-- A tree without its nodes of an id and what is below them. -/
def without (nodeId : Value) : OptionTree → List OptionTree
  | .node d cs => if d.id.agrees nodeId then [] else [.node d (withoutAll nodeId cs)]

/-- Several trees without their nodes of an id and what is below them. -/
def withoutAll (nodeId : Value) : List OptionTree → List OptionTree
  | [] => []
  | t :: ts => without nodeId t ++ withoutAll nodeId ts

end

variable {i j : Value}

theorem withoutAll_append (ss ts : List OptionTree) :
    withoutAll i (ss ++ ts) = withoutAll i ss ++ withoutAll i ts := by
  induction ss with
  | nil => rfl
  | cons s ss ih => simp [withoutAll, ih]

mutual

theorem withoutAll_without (t : OptionTree) :
    withoutAll j (without i t) = withoutAll i (without j t) := by
  match t with
  | .node d cs =>
    have hbelow := withoutAll_comm cs
    by_cases hi : d.id.agrees i = true <;> by_cases hj : d.id.agrees j = true <;>
      simp [without, withoutAll, hi, hj, hbelow]

/-- The order in which all nodes of two ids are taken out does not matter. -/
theorem withoutAll_comm (ts : List OptionTree) :
    withoutAll j (withoutAll i ts) = withoutAll i (withoutAll j ts) := by
  match ts with
  | [] => rfl
  | t :: ts =>
    rw [withoutAll, withoutAll, withoutAll_append, withoutAll_append, withoutAll_without t,
      withoutAll_comm ts]

end

mutual

theorem without_of_absent {t : OptionTree} (h : ∀ u ∈ preorder t, u.id.agrees i = false) :
    without i t = [t] := by
  match t with
  | .node d cs =>
    have htop : d.id.agrees i = false := h _ List.mem_cons_self
    have hbelow := withoutAll_of_absent fun u hu => h u (List.mem_cons_of_mem _ hu)
    simp [without, htop, hbelow]

theorem withoutAll_of_absent {ts : List OptionTree}
    (h : ∀ u ∈ preorderAll ts, u.id.agrees i = false) : withoutAll i ts = ts := by
  match ts with
  | [] => rfl
  | t :: ts =>
    rw [withoutAll, without_of_absent fun u hu => h u (List.mem_append_left _ hu),
      withoutAll_of_absent fun u hu => h u (List.mem_append_right _ hu)]
    rfl

end

/-- Trees have an id that is a text, or none of their nodes agrees with it. -/
theorem not_agrees_of_not_mem {i : String} {ts : List OptionTree} (h : .text i ∉ idsAll ts) :
    ∀ u ∈ preorderAll ts, u.id.agrees i = false := by
  intro u hu
  rw [Bool.eq_false_iff, Ne, Value.agrees_text_iff]
  intro hid
  exact h (hid ▸ List.mem_map_of_mem hu)

mutual

theorem amend_eq_without {i : String} {t : OptionTree} (hd : (idsAll [t]).Nodup) :
    amend i (fun _ => []) [t] = without i t := by
  match t with
  | .node d cs =>
    rw [idsAll_node, List.nodup_cons] at hd
    by_cases hi : d.id.agrees i = true
    · rw [amend_top hi, without, if_pos hi]
    · rw [amend_below (Bool.eq_false_iff.2 hi), without, if_neg hi, amend_eq_withoutAll hd.2]

/-- Among distinct ids the first node of an id is the only one, so taking it out takes out all. -/
theorem amend_eq_withoutAll {i : String} {ts : List OptionTree} (hd : (idsAll ts).Nodup) :
    amend i (fun _ => []) ts = withoutAll i ts := by
  match ts with
  | [] => rfl
  | t :: ts =>
    rw [← List.singleton_append, idsAll_append, List.nodup_append'] at hd
    obtain ⟨hfirst, hrest, hdisjoint⟩ := hd
    rw [withoutAll, ← amend_eq_without hfirst, ← List.singleton_append]
    cases hi : replaceFirstIn i (fun _ => []) [t] with
    | some us =>
      have hmem : .text i ∈ idsAll [t] := by
        by_contra hmem
        rw [replaceFirstIn_of_absent (not_agrees_of_not_mem hmem)] at hi
        cases hi
      rw [amend_append_of_some hi, amend_of_some hi,
        withoutAll_of_absent (not_agrees_of_not_mem (hdisjoint hmem))]
    | none => rw [amend_append_of_none hi, amend_of_none hi, amend_eq_withoutAll hrest]

end

mutual

theorem idsAll_without (t : OptionTree) : (idsAll (without i t)).Sublist (idsAll [t]) := by
  match t with
  | .node d cs =>
    rw [without]
    split
    · exact List.nil_sublist _
    · rw [idsAll_node, idsAll_node]
      exact (idsAll_withoutAll cs).cons_cons d.id

theorem idsAll_withoutAll (ts : List OptionTree) :
    (idsAll (withoutAll i ts)).Sublist (idsAll ts) := by
  match ts with
  | [] => exact .refl _
  | t :: ts =>
    rw [withoutAll, idsAll_append, ← List.singleton_append, idsAll_append]
    exact (idsAll_without t).append (idsAll_withoutAll ts)

end

end OptionTree

/-- **Removals commute among distinct ids**, also of one node above another, of the root and of ids
that are not there. -/
theorem Draft.remove_comm {draft : Draft} (hd : draft.ids.Nodup) (i j : String) :
    (draft.remove i).remove j = (draft.remove j).remove i := by
  cases draft with
  | none => rfl
  | some t =>
    have hone (s : OptionTree) : ((fun _ => []) s : List OptionTree).length ≤ 1 := Nat.zero_le 1
    rw [ids_some] at hd
    have hboth (i j : String) :
        (remove (some t) i).remove j = (withoutAll j (without i t)).head? := by
      rw [remove_eq_amend, remove_eq_amend, amend_amend hone, amend_eq_without hd,
        amend_eq_withoutAll (hd.sublist (idsAll_without t))]
    rw [hboth, hboth, withoutAll_without]

/-! ### Either order -/

/-- The records of an update that can be made on any node and leaves ids and children alone. -/
structure Members.Patches (nodeId : Value) (patch changes : Members) : Prop where
  /-- The patch names neither id nor children. -/
  spares : SparesIds patch
  /-- Nor do the changes over it. -/
  sparesChanges : SparesIds changes
  /-- The two are a patch. -/
  valid : ArePatch nodeId patch changes

namespace Edit

/-- Two edits can be made in either order, and the same draft comes out. -/
def Commute (draft : Draft) (d e : Edit) : Prop :=
  ∃ afterD afterE after, d.apply draft = .ok afterD ∧ e.apply draft = .ok afterE ∧
    e.apply afterD = .ok after ∧ d.apply afterE = .ok after

/-- Pairs of edits of a draft of which neither depends on the other. -/
inductive Independent (draft : Draft) : Edit → Edit → Prop where
  /-- Updates of different ids that leave ids and children alone; ids may repeat in the draft. -/
  | updates {i j : String} {patch changes patch' changes' : Members} (hij : i ≠ j)
      (h : Members.Patches i patch changes) (h' : Members.Patches j patch' changes') :
      Independent draft (.update i patch changes) (.update j patch' changes')
  /-- Insertions below different ids of the draft. No id is in two of the draft and the new trees;
  within each of them ids may repeat. -/
  | insertions {t a b : OptionTree} {i j : String} {position position' : Value} (hij : i ≠ j)
      (ht : draft = some t) (hi : .text i ∈ t.ids) (hj : .text j ∈ t.ids) (ha : Foreign a t)
      (hb : Foreign b t) (hab : ∀ k ∈ a.ids, k ∉ b.ids) (hposition : position.IsPosition)
      (hposition' : position'.IsPosition) :
      Independent draft (.insert i a position) (.insert j b position')
  /-- Removals of any two ids from a draft of distinct ids. -/
  | removals (hd : draft.ids.Nodup) (i j : String) : Independent draft (.remove i) (.remove j)

variable {draft : Draft}

/-- What is foreign to a tree is so to the tree with another foreign one in it. -/
theorem foreign_after {t a b after : OptionTree} (ha : Foreign a t) (hb : Foreign b t)
    (hab : ∀ k ∈ b.ids, k ∉ a.ids) (hperm : after.ids.Perm (t.ids ++ a.ids)) : Foreign b after where
  texts := hb.texts
  restTexts k hk := by
    rcases List.mem_append.1 (hperm.mem_iff.1 hk) with hk | hk
    · exact ha.restTexts k hk
    · exact ha.texts k hk
  other k hk hmem := by
    rcases List.mem_append.1 (hperm.mem_iff.1 hmem) with hmem | hmem
    · exact hb.other k hk hmem
    · exact hab k hk hmem

/-- No node of a foreign tree has an id of the tree. -/
theorem not_agrees_of_foreign {t new : OptionTree} (h : Foreign new t) {i : String}
    (hi : .text i ∈ t.ids) : ∀ u ∈ preorder new, u.id.agrees i = false := by
  intro u hu
  have habsent : .text i ∉ idsAll [new] := by
    rw [← ids_eq_idsAll]
    exact fun hmem => h.other _ hmem hi
  exact not_agrees_of_not_mem habsent u (by simpa [preorderAll] using hu)

theorem exists_apply_insert {t new : OptionTree} {parentId position : Value} (h : Foreign new t)
    (hparent : parentId ∈ t.ids) (hposition : position.IsPosition) :
    ∃ after, (insert parentId new position).apply (some t) = .ok (some after) ∧
      Draft.amend (some t) parentId (fun s => [s.grown new position]) = some after ∧
      after.ids.Perm (t.ids ++ new.ids) := by
  obtain ⟨after, hinsert, hamend⟩ := Draft.exists_insert_eq_amend h hparent hposition
  refine ⟨after, ?_, hamend, Draft.ids_insert hinsert⟩
  rw [apply, hinsert]
  rfl

/-- **Independent edits commute.** -/
theorem commute_of_independent {d e : Edit} (h : Independent draft d e) : Commute draft d e := by
  cases h with
  | updates hij h h' =>
    obtain ⟨p, kind, hread, -, hp⟩ := exists_apply_update h.valid
    obtain ⟨q, kind', hread', -, hq⟩ := exists_apply_update h'.valid
    obtain ⟨hid, hchildren⟩ := Patch.ofMembers_spares h.spares h.sparesChanges hread
    obtain ⟨hid', hchildren'⟩ := Patch.ofMembers_spares h'.spares h'.sparesChanges hread'
    have hapart := Value.apart_texts hij
    have hcomm := Draft.amend_comm hapart (Patch.letsThrough hid hchildren kind hapart _)
      (Patch.letsThrough hid' hchildren' kind' hapart.symm _) (fun _ => le_rfl) (fun _ => le_rfl)
      draft
    refine ⟨_, _, _, hp draft, hq draft, hq _, ?_⟩
    rw [hp, hcomm]
  | @insertions t a b i j position position' hij ht hi hj ha hb hab hposition hposition' =>
    subst ht
    obtain ⟨first, hfirst, hamend, hperm⟩ := exists_apply_insert ha hi hposition
    obtain ⟨second, hsecond, hamend', hperm'⟩ := exists_apply_insert hb hj hposition'
    have hba : ∀ k ∈ b.ids, k ∉ a.ids := fun k hk hmem => hab k hmem hk
    -- the second insertion finds its parent, and still brings no id that is there
    obtain ⟨both, hboth, hamends, -⟩ := exists_apply_insert (foreign_after ha hb hba hperm)
      (hperm.mem_iff.2 (List.mem_append_left _ hj)) hposition'
    obtain ⟨both', hboth', hamends', -⟩ := exists_apply_insert (foreign_after hb ha hab hperm')
      (hperm'.mem_iff.2 (List.mem_append_left _ hi)) hposition
    have hapart := Value.apart_texts hij
    have hcomm := Draft.amend_comm hapart
      (letsThrough_grown hapart (fun s => ⟨s.grown b position', rfl⟩) (not_agrees_of_foreign ha hj)
        position)
      (letsThrough_grown hapart.symm (fun s => ⟨s.grown a position, rfl⟩)
        (not_agrees_of_foreign hb hi) position')
      (fun _ => le_rfl) (fun _ => le_rfl) (some t)
    rw [hamend, hamend', hamends, hamends', Option.some.injEq] at hcomm
    subst hcomm
    exact ⟨_, _, _, hfirst, hsecond, hboth, hboth'⟩
  | removals hd i j => exact ⟨_, _, _, rfl, rfl, rfl, congrArg _ (Draft.remove_comm hd j i)⟩

end Edit

/-- A ladder. -/
def ladder : OptionTree := .node { id := "ladder", label := "Ladder" } []

/-- Two shelves of one id get another label while the box on one of them does, a crate comes between
them while a ladder is put on the first, and a shelf goes while the box on it does. -/
theorem commute_depot :
    Edit.Commute (some twinShelves) (.update "shelf" [("label", "Board")] [])
      (.update "box" [("label", "Case")] [("is_expanded", .bool false)]) ∧
    Edit.Commute (some twinShelves) (.insert "depot" crate (.int 1)) (.insert "shelf" ladder .null) ∧
    Edit.Commute (some depot) (.remove "shelf") (.remove "box") := by
  have htwins : twinShelves.ids = ["depot", "shelf", "box", "shelf"].map Value.text := by cbv
  have hcrate : crate.ids = ["crate", "lid"].map Value.text := by cbv
  have hladder : ladder.ids = ["ladder"].map Value.text := by cbv
  have hdepot : Draft.ids (some depot) = ["depot", "shelf", "box", "rack"].map Value.text := by cbv
  have hshelf : Members.Patches "shelf" [("label", "Board")] [] :=
    ⟨by simp [Members.SparesIds, Members.names], by simp [Members.SparesIds, Members.names],
      _, _, rfl, rfl⟩
  have hbox : Members.Patches "box" [("label", "Case")] [("is_expanded", .bool false)] :=
    ⟨by simp [Members.SparesIds, Members.names], by simp [Members.SparesIds, Members.names],
      _, _, rfl, rfl⟩
  have hcrateForeign : Foreign crate twinShelves :=
    ⟨by simp [hcrate], by simp [htwins], by simp [hcrate, htwins]⟩
  have hladderForeign : Foreign ladder twinShelves :=
    ⟨by simp [hladder], by simp [htwins], by simp [hladder, htwins]⟩
  refine ⟨Edit.commute_of_independent (.updates (by decide) hshelf hbox),
    Edit.commute_of_independent (.insertions (by decide) rfl (by simp [htwins]) (by simp [htwins])
      hcrateForeign hladderForeign (by simp [hcrate, hladder]) (.inr ⟨1, rfl⟩) (.inl rfl)),
    Edit.commute_of_independent (.removals (by simp [hdepot]) "shelf" "box")⟩

end BranchForm
