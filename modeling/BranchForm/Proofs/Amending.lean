import BranchForm.Proofs.Grafting
import Mathlib

/-!
# Edits as amendments

Updating, removing and inserting are one thing with different replacements: the first node with an
id gives way to other trees, and a draft without such a node stays as it is.

* `OptionTree.amend` does so to a sequence of trees, `Draft.amend` to a draft;
* `OptionTree.amend_append_of_some` and `OptionTree.amend_append_of_none` : of two sequences the
  first one is amended if there is a node in it, and else the second one;
* `Draft.amend_of_gap` and `Draft.amend_of_absent` : an amendment fills the gap in which the node
  stands, and does nothing if there is none; `Draft.amend_congr` : so what it makes of other nodes
  does not matter;
* `Draft.update_eq_amend`, `Draft.toggle_eq_amend`, `Draft.remove_eq_amend` and
  `Draft.exists_insert_eq_amend` : the edits are amendments;
* `Members.ArePatch` are records that can be put on any node, and `Edit.exists_apply_update` : an
  update by them is made.
-/

namespace BranchForm

open OptionTree

namespace OptionTree

/-- Some trees once their first node with an id is replaced; without such a node they stay. -/
def amend (nodeId : Value) (f : OptionTree → List OptionTree) (ts : List OptionTree) :
    List OptionTree :=
  (replaceFirstIn nodeId f ts).getD ts

variable {nodeId : Value} {f : OptionTree → List OptionTree} {ss us : List OptionTree} {d : Node}

theorem amend_of_some (h : replaceFirstIn nodeId f ss = some us) : amend nodeId f ss = us := by
  rw [amend, h, Option.getD_some]

theorem amend_of_none (h : replaceFirstIn nodeId f ss = none) : amend nodeId f ss = ss := by
  rw [amend, h, Option.getD_none]

theorem amend_append_of_some (h : replaceFirstIn nodeId f ss = some us) (ts : List OptionTree) :
    amend nodeId f (ss ++ ts) = us ++ ts :=
  amend_of_some (replaceFirstIn_append_of_some h ts)

theorem amend_append_of_none (h : replaceFirstIn nodeId f ss = none) (ts : List OptionTree) :
    amend nodeId f (ss ++ ts) = ss ++ amend nodeId f ts := by
  rw [amend, replaceFirstIn_append_of_none h, amend, Option.getD_map]

theorem replaceFirstIn_top (h : d.id.agrees nodeId = true) (cs : List OptionTree) :
    replaceFirstIn nodeId f [.node d cs] = some (f (.node d cs)) := by
  simp [replaceFirstIn, replaceFirst, h]

theorem replaceFirstIn_below (h : d.id.agrees nodeId = false) (cs : List OptionTree) :
    replaceFirstIn nodeId f [.node d cs] =
      (replaceFirstIn nodeId f cs).map fun ds => [.node d ds] := by
  rw [← replaceFirst_eq_in, replaceFirst, h]
  rfl

theorem amend_top (h : d.id.agrees nodeId = true) (cs : List OptionTree) :
    amend nodeId f [.node d cs] = f (.node d cs) :=
  amend_of_some (replaceFirstIn_top h cs)

theorem amend_below (h : d.id.agrees nodeId = false) (cs : List OptionTree) :
    amend nodeId f [.node d cs] = [.node d (amend nodeId f cs)] := by
  rw [amend, replaceFirstIn_below h, amend, Option.getD_map]

/-- One tree stays at most one if no node gives way to several. -/
theorem length_amend_le (hf : ∀ s, (f s).length ≤ 1) (t : OptionTree) :
    (amend nodeId f [t]).length ≤ 1 := by
  obtain ⟨d, cs⟩ := t
  by_cases hid : d.id.agrees nodeId = true
  · rw [amend_top hid]
    exact hf _
  · rw [amend_below (Bool.eq_false_iff.2 hid)]
    exact le_rfl

end OptionTree

namespace Draft

/-- A draft once its first node with an id is replaced. -/
def amend (draft : Draft) (nodeId : Value) (f : OptionTree → List OptionTree) : Draft :=
  draft.bind fun t => (OptionTree.amend nodeId f [t]).head?

variable {draft : Draft} {i j nodeId : Value} {f g : OptionTree → List OptionTree}

theorem amend_some (t : OptionTree) (nodeId : Value) (f : OptionTree → List OptionTree) :
    amend (some t) nodeId f = ((t.replaceFirst nodeId f).getD [t]).head? := by
  rw [replaceFirst_eq_in]
  rfl

/-- A search that finds a node of a draft ends at a gap that is clear of the id. -/
theorem find?_inv {s : OptionTree} (h : draft.find? nodeId = some s) :
    ∃ (t : OptionTree) (gap : Gap), draft = some t ∧ gap.Clear nodeId ∧
      s.id.agrees nodeId = true ∧ gap.fill [s] = [t] := by
  obtain ⟨t, rfl, ht⟩ := Option.bind_eq_some_iff.1 h
  obtain ⟨gap, hclear, hid, hfill⟩ := exists_clear_gap ht
  exact ⟨t, gap, rfl, hclear, hid, hfill⟩

/-- An amendment of what stands in a clear gap fills the gap. -/
theorem amend_of_gap {gap : Gap} {s t : OptionTree} (hclear : gap.Clear nodeId)
    (hid : s.id.agrees nodeId = true) (hfill : gap.fill [s] = [t]) :
    amend (some t) nodeId f = (gap.fill (f s)).head? := by
  rw [amend_some, replaceFirst_of_gap hclear hid hfill, Option.getD_some]

theorem amend_of_absent (h : draft.find? nodeId = none) : draft.amend nodeId f = draft := by
  cases draft with
  | none => rfl
  | some t => rw [amend_some, replaceFirst_of_find?_none h, Option.getD_none, List.head?_cons]

/-- What is made of the node found decides an amendment. -/
theorem amend_congr (h : ∀ s, draft.find? nodeId = some s → f s = g s) :
    draft.amend nodeId f = draft.amend nodeId g := by
  cases hs : draft.find? nodeId with
  | none => rw [amend_of_absent hs, amend_of_absent hs]
  | some s =>
    obtain ⟨t, gap, rfl, hclear, hid, hfill⟩ := find?_inv hs
    rw [amend_of_gap hclear hid hfill, amend_of_gap hclear hid hfill, h s hs]

theorem amend_self (draft : Draft) (nodeId : Value) : draft.amend nodeId (fun s => [s]) = draft := by
  cases hs : draft.find? nodeId with
  | none => exact amend_of_absent hs
  | some s =>
    obtain ⟨t, gap, rfl, hclear, hid, hfill⟩ := find?_inv hs
    rw [amend_of_gap hclear hid hfill, hfill, List.head?_cons]

/-- Two amendments of a draft are those of its tree. -/
theorem amend_amend (hf : ∀ s, (f s).length ≤ 1) (t : OptionTree) :
    (amend (some t) i f).amend j g = (OptionTree.amend j g (OptionTree.amend i f [t])).head? := by
  have hlength : (OptionTree.amend i f [t]).length ≤ 1 := length_amend_le hf t
  rw [amend, amend, Option.bind_some]
  match OptionTree.amend i f [t], hlength with
  | [], _ => rfl
  | [u], _ => rfl

theorem remove_eq_amend (draft : Draft) (nodeId : Value) :
    draft.remove nodeId = draft.amend nodeId fun _ => [] := by
  cases draft with
  | none => rfl
  | some t => exact (amend_some t nodeId _).symm

end Draft

/-! ### Updates -/

/-- A patch that sets nothing changes nothing. -/
theorem Patch.apply_of_isEmpty {p : Patch} {kind : Option NodeKind} (h : p.isEmpty = true)
    (hkind : p.newKind = .ok kind) (s : OptionTree) : p.apply kind s = s := by
  simp only [isEmpty, Bool.and_eq_true, Option.isNone_iff_eq_none] at h
  obtain ⟨⟨⟨⟨⟨⟨hid, hlabel⟩, hrole⟩, hmultiple⟩, himage⟩, hexpanded⟩, hchildren⟩ := h
  have hnone : kind = none := by
    rw [newKind, hrole] at hkind
    exact (Except.ok.inj hkind).symm
  obtain ⟨d, cs⟩ := s
  rw [apply, hid, hlabel, hnone, hmultiple, himage, hexpanded, hchildren]
  rfl

/-- An update with a role that is one gives the node found its new values. -/
theorem Draft.update_eq_amend {p : Patch} {kind : Option NodeKind} (hkind : p.newKind = .ok kind)
    (draft : Draft) (nodeId : Value) :
    draft.update nodeId p = .ok (draft.amend nodeId fun s => [p.apply kind s]) := by
  cases draft with
  | none => rfl
  | some t =>
    by_cases hempty : p.isEmpty = true
    · have hsame : (fun s => [p.apply kind s]) = fun s => [s] :=
        funext fun s => congrArg (fun u => [u]) (Patch.apply_of_isEmpty hempty hkind s)
      rw [update, if_pos hempty, hsame, amend_self]
    · cases hs : t.find? nodeId with
      | none =>
        have hfind : Draft.find? (some t) nodeId = none := hs
        simp [amend_of_absent hfind, update, hs]
      | some s =>
        simp only [update, hempty, hs, hkind, amend_some, ok_bind]
        rfl

/-- A node with its display turned over. -/
def OptionTree.turned : OptionTree → OptionTree
  | .node d cs => .node { d with expanded := .bool !d.expanded.truthy } cs

/-- A toggle turns the display of the node found over. -/
theorem Draft.toggle_eq_amend (draft : Draft) (nodeId : Value) :
    draft.toggle nodeId = .ok (draft.amend nodeId fun s => [s.turned]) := by
  cases hs : draft.find? nodeId with
  | none => rw [toggle, hs, amend_of_absent hs]
  | some s =>
    rw [toggle, hs]
    refine (update_eq_amend rfl draft nodeId).trans (congrArg Except.ok (amend_congr ?_))
    intro u hu
    obtain rfl : s = u := Option.some.inj (hs.symm.trans hu)
    obtain ⟨d, cs⟩ := s
    rfl

/-- Records that are a patch for any node: they are read as one, and a role that it sets is one. -/
def Members.ArePatch (nodeId : Value) (patch changes : Members) : Prop :=
  ∃ p kind, Patch.ofMembers nodeId patch changes = .ok p ∧ p.newKind = .ok kind

/-- An update by the records of a patch gives the node found its new values. -/
theorem Edit.exists_apply_update {nodeId : Value} {patch changes : Members}
    (h : Members.ArePatch nodeId patch changes) :
    ∃ p kind, Patch.ofMembers nodeId patch changes = .ok p ∧ p.newKind = .ok kind ∧
      ∀ draft : Draft, (update nodeId patch changes).apply draft =
        .ok (draft.amend nodeId fun s => [p.apply kind s]) := by
  obtain ⟨p, kind, hp, hkind⟩ := h
  refine ⟨p, kind, hp, hkind, fun draft => ?_⟩
  rw [apply, hp, ok_bind, Draft.update_eq_amend hkind]

/-! ### Insertions -/

/-- An insertion gives the parent found one more child. -/
theorem Draft.exists_insert_eq_amend {t new : OptionTree} {parentId position : Value}
    (h : Foreign new t) (hparent : parentId ∈ t.ids) (hposition : position.IsPosition) :
    ∃ after, insert (some t) parentId (some new) position = .ok after ∧
      amend (some t) parentId (fun s => [s.grown new position]) = some after := by
  have hids : ∀ i ∈ ids (some t), ∃ s, i = .text s := h.restTexts
  obtain ⟨parent, hfind⟩ := (find?_iff hids).2 hparent
  have hfound : t.find? parentId = some parent := hfind
  obtain ⟨g, hclear, hid, hfill⟩ := exists_clear_gap hfound
  obtain ⟨after, hinsert, hgrafted⟩ := exists_insert h hclear hid hfill hposition
  refine ⟨after, hinsert, ?_⟩
  rw [amend_of_gap hclear hid hfill, grown_eq, ← Gap.fill_beneath, hgrafted.whole, List.head?_cons]

end BranchForm
