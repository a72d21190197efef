import BranchForm.Proofs.Grafting
import Mathlib

/-!
# Moving a tree and moving it back

A move takes a tree out of a whole one and puts it in again below another node. Both ends of the
move are a graft of the same tree on the same rest, so the way back is a move as well.

* `Grafted.of_wellNamed` : whatever stands below another node of a well-named tree is grafted there;
* `Grafted.move_eq` : a move is an insertion into the rest;
* `Gap.exists_above` : a node above the gap keeps its children in the rest, but for the tree;
* `move_and_back` is the whole result.
-/

namespace BranchForm

open OptionTree

variable {g : Gap} {x rest t u : OptionTree} {parentId position : Value}

/-! ### Well-named trees -/

/-- In a well-named tree each node is found by its id. -/
theorem Draft.WellNamed.find?_of_mem (h : WellNamed (some t)) (hu : u ∈ preorder t) :
    t.find? u.id = some u := by
  have hdistinct : ((preorder t).map OptionTree.id).Nodup := ids_eq_map t ▸ h.distinct
  have hthere : (t.find? u.id).isSome := by
    rw [find?_eq_of_texts h.texts, List.find?_isSome]
    exact ⟨u, hu, decide_eq_true rfl⟩
  obtain ⟨v, hv⟩ := Option.isSome_iff_exists.1 hthere
  rw [hv]
  rw [find?_eq_of_texts h.texts] at hv
  have hid : v.id = u.id := by simpa using List.find?_some hv
  rw [List.inj_on_of_nodup_map hdistinct (List.mem_of_find?_eq_some hv) hu hid]

/-- What fills a gap of a well-named tree is grafted there. -/
theorem Grafted.of_wellNamed (h : Draft.WellNamed (some t)) (whole : g.fill [x] = [t])
    (without : g.fill [] = [rest]) : Grafted g x rest t := by
  obtain ⟨pre, post, ht, hrest⟩ := Gap.exists_ids_fill whole without
  have htexts : ∀ i ∈ t.ids, ∃ s, i = .text s := h.texts
  have hdistinct : (pre ++ (x.ids ++ post)).Nodup := by
    rw [← List.append_assoc, ← ht]
    exact h.distinct
  obtain ⟨-, hright, hleft⟩ := List.nodup_append'.1 hdistinct
  rw [ht, List.forall_mem_append, List.forall_mem_append] at htexts
  obtain ⟨⟨hpre, hx⟩, hpost⟩ := htexts
  refine ⟨⟨hx, ?_, fun i hi hmem => ?_⟩, whole, without⟩
  · rw [hrest]
    exact List.forall_mem_append.2 ⟨hpre, hpost⟩
  · rw [hrest] at hmem
    rcases List.mem_append.1 hmem with hmem | hmem
    · exact hleft hmem (List.mem_append_left _ hi)
    · exact List.disjoint_of_nodup_append hright hi hmem

/-! ### Moves -/

namespace Grafted

theorem wholeTexts (h : Grafted g x rest t) : ∀ i ∈ t.ids, ∃ s, i = .text s := by
  intro i hi
  by_cases hx : i ∈ x.ids
  · exact h.texts i hx
  · refine h.restTexts i ?_
    rw [← h.filter_ids]
    exact List.mem_filter.2 ⟨hi, decide_eq_true hx⟩

/-- The top of the whole is not the tree. -/
theorem not_agrees_top (h : Grafted g x rest t) : x.id.agrees t.id = false := by
  have htop : t.id ∈ rest.ids := by
    rw [OptionTree.id, h.data_eq, ← OptionTree.id]
    exact id_mem_ids rest
  rw [Bool.eq_false_iff, Ne, Value.agrees_iff_of_text (h.texts _ (id_mem_ids x))]
  intro heq
  exact h.id_not_mem (heq ▸ htop)

/-- A move to a node outside the tree is an insertion into the rest. -/
theorem move_eq (h : Grafted g x rest t) (hparent : parentId ∈ rest.ids) (position : Value) :
    Draft.move (some t) x.id parentId position =
      Draft.insert (some rest) parentId (some x) position := by
  have hfind : Draft.find? (some t) x.id = some x := h.find?_eq
  have hwhole : ∀ i ∈ Draft.ids (some t), ∃ s, i = .text s := h.wholeTexts
  have hinside : ∀ i ∈ Draft.ids (some x), ∃ s, i = .text s := h.texts
  have hthere : (t.find? parentId).isNone = false := by
    have hmem : parentId ∈ t.ids := by
      rw [← h.filter_ids] at hparent
      exact List.mem_of_mem_filter hparent
    obtain ⟨u, hu⟩ := (Draft.find?_iff hwhole).2 hmem
    exact Option.isNone_eq_false_iff.2 (Option.isSome_iff_exists.2 ⟨u, hu⟩)
  have hbelow : (x.find? parentId).isSome = false := by
    rw [Bool.eq_false_iff, Ne, Option.isSome_iff_exists]
    intro hfound
    exact h.other _ ((Draft.find?_iff hinside).1 hfound) hparent
  simp [Draft.move, hfind, hthere, h.not_agrees_top, hbelow, h.remove_eq]

end Grafted

/-! ### Nodes with and without a tree -/

/-- The ids of some trees are among those of all their nodes. -/
theorem OptionTree.map_id_subset (ts : List OptionTree) : ts.map OptionTree.id ⊆ idsAll ts := by
  intro i hi
  obtain ⟨u, hu, rfl⟩ := List.mem_map.1 hi
  exact List.mem_map_of_mem (mem_preorderAll_of_mem hu)

namespace Gap

/-- Children among which there is a gap are the same without a tree in it, but for this tree. -/
theorem map_id_children {left right : List OptionTree}
    (h : x.id ∉ idsAll (left ++ g.fill [] ++ right)) :
    (left ++ g.fill [] ++ right).map OptionTree.id =
      ((left ++ g.fill [x] ++ right).map OptionTree.id).erase x.id := by
  have hids := fun hmem => h (map_id_subset _ hmem)
  cases g with
  | here =>
    have hleft : x.id ∉ left.map OptionTree.id := fun hmem => hids (by
      rw [List.map_append, List.map_append]
      exact List.mem_append_left _ (List.mem_append_left _ hmem))
    simp only [fill, List.map_append, List.map_cons, List.map_nil, List.append_nil,
      List.append_assoc]
    rw [List.erase_append_right _ hleft, List.singleton_append, List.erase_cons_head]
  | under d before after g =>
    have hsame : (left ++ (under d before after g).fill [x] ++ right).map OptionTree.id =
        (left ++ (under d before after g).fill [] ++ right).map OptionTree.id := by
      simp only [fill, List.map_append, List.map_cons, List.map_nil]
      rfl
    rw [hsame, List.erase_of_not_mem hids]

/-- A node above a gap is there without the tree in it as well, with the other children. -/
theorem exists_above (h : x.id ∉ idsAll (g.fill [])) (hu : u ∈ g.above [x]) :
    ∃ v ∈ g.above [], v.data = u.data ∧
      v.children.map OptionTree.id = (u.children.map OptionTree.id).erase x.id := by
  induction g with
  | here => cases hu
  | under d left right g ih =>
    rw [fill, idsAll_node, List.mem_cons, not_or] at h
    rcases List.mem_cons.1 hu with rfl | hu
    · exact ⟨_, List.mem_cons_self, rfl, map_id_children h.2⟩
    · have hbelow : x.id ∉ idsAll (g.fill []) := by
        have hchildren := h.2
        simp only [idsAll_append, List.mem_append, not_or] at hchildren
        exact hchildren.1.2
      obtain ⟨v, hv, hsame⟩ := ih hbelow hu
      exact ⟨v, List.mem_cons_of_mem _ hv, hsame⟩

end Gap

/-- A node of a well-named tree outside a graft is there in the rest, with the other children. -/
theorem Grafted.exists_find? (h : Grafted g x rest t) (hrest : Draft.WellNamed (some rest))
    (hu : u ∈ preorder t) (hout : u ∉ preorder x) :
    ∃ v, rest.find? u.id = some v ∧ v.data = u.data ∧
      v.children.map OptionTree.id = (u.children.map OptionTree.id).erase x.id := by
  have hx : x.id ∉ rest.ids := h.id_not_mem
  have hfind : ∀ v ∈ preorder rest, v.data = u.data → rest.find? u.id = some v := by
    intro v hv hdata
    rw [OptionTree.id, ← hdata]
    exact hrest.find?_of_mem hv
  rcases List.mem_append.1 (h.preorder_perm.mem_iff.1 hu) with habove | hbelow
  · rw [ids_eq_idsAll, ← h.without] at hx
    obtain ⟨v, hv, hdata, hchildren⟩ := Gap.exists_above hx habove
    have hmem : v ∈ preorder rest := h.rest_perm.mem_iff.2 (List.mem_append_left _ hv)
    exact ⟨v, hfind v hmem hdata, hdata, hchildren⟩
  · rcases List.mem_append.1 hbelow with hinside | hbeside
    · exact absurd hinside hout
    · have hmem : u ∈ preorder rest := h.rest_perm.mem_iff.2 (List.mem_append_right _ hbeside)
      refine ⟨u, hfind u hmem rfl, rfl, (List.erase_of_not_mem fun hchild => hx ?_).symm⟩
      -- the children of a node of the rest are nodes of the rest
      obtain ⟨c, hc, hid⟩ := List.mem_map.1 hchild
      rw [← hid, ids_eq_map]
      exact List.mem_map_of_mem (mem_preorder_iff.2 (.tail (mem_preorder_iff.1 hmem) hc))

/-! ### There and back -/

/-- A child in a well-named tree is grafted between its siblings, which a gap below their parent
leaves. -/
theorem Draft.WellNamed.exists_grafted {p : OptionTree} {i : Nat} (h : WellNamed (some t))
    (hp : p ∈ preorder t) (hx : p.children[i]? = some x) :
    ∃ (g : Gap) (left right : List OptionTree) (rest : OptionTree), left.length = i ∧
      g.Clear p.id ∧ (OptionTree.node p.data (left ++ right)).id.agrees p.id = true ∧
      g.fill [.node p.data (left ++ right)] = [rest] ∧
      Grafted (g.beneath p.data left right) x rest t := by
  obtain ⟨d, cs⟩ := p
  have hchild : cs[i]? = some x := hx
  obtain ⟨hi, rfl⟩ := List.getElem?_eq_some_iff.1 hchild
  have hsplit : cs.take i ++ [cs[i]] ++ cs.drop (i + 1) = cs := by
    rw [List.append_assoc, List.singleton_append, List.getElem_cons_drop, List.take_append_drop]
  obtain ⟨g, hclear, hid, hfill⟩ := exists_clear_gap (h.find?_of_mem hp)
  obtain ⟨rest, hrest⟩ := g.exists_fill (.node d (cs.take i ++ cs.drop (i + 1)))
  refine ⟨g, cs.take i, cs.drop (i + 1), rest, List.length_take_of_le hi.le, hclear, hid, hrest,
    .of_wellNamed h ?_ ?_⟩
  · rw [Gap.fill_beneath]
    exact (congrArg (fun us => g.fill [.node d us]) hsplit).trans hfill
  · rw [Gap.fill_beneath, List.append_nil]
    exact hrest

/-- **A move is exact, and the way back is a move.** A tree of a well-named one goes below any node
outside it: to the index asked for among the children which that node has without it, the last if
there is none. The tree is as it was, and so is the order of the ids outside it. Moved back to its
index below its old parent, it leaves the tree as it was. -/
theorem move_and_back {t p q x : OptionTree} {i : Nat} {position : Value}
    (h : Draft.WellNamed (some t)) (hp : p ∈ preorder t) (hx : p.children[i]? = some x)
    (hq : q ∈ preorder t) (hout : q ∉ preorder x) (hposition : position.IsPosition) :
    ∃ rest q' after : OptionTree,
      -- the node outside is still there when the tree is taken out, with its other children
      Draft.remove (some t) x.id = some rest ∧ rest.find? q.id = some q' ∧ q'.data = q.data ∧
      q'.children.map OptionTree.id = (q.children.map OptionTree.id).erase x.id ∧
      -- the tree comes below it
      Draft.move (some t) x.id q.id position = .ok after ∧
      after.find? x.id = some x ∧
      Draft.parent? (some after) x.id = some (q'.grown x position) ∧
      after.ids.filter (fun j => decide (j ∉ x.ids)) =
        t.ids.filter (fun j => decide (j ∉ x.ids)) ∧
      Draft.move (some after) x.id p.id (.int i) = .ok t := by
  obtain ⟨g, left, right, rest, hlength, hclear, hid, hfill, hgrafted⟩ := h.exists_grafted hp hx
  have hrest : Draft.WellNamed (some rest) := hgrafted.remove_eq ▸ h.remove x.id
  have hrestIds : ∀ {nodeId u}, rest.find? nodeId = some u → nodeId ∈ rest.ids := fun hu =>
    (Draft.find?_iff hrest.texts).1 ⟨_, hu⟩
  -- there
  obtain ⟨q', hq', hdata, hchildren⟩ := hgrafted.exists_find? hrest hq hout
  obtain ⟨g', hclear', hid', hfill'⟩ := exists_clear_gap hq'
  obtain ⟨after, hthere, hafter⟩ :=
    Draft.exists_insert hgrafted.toForeign hclear' hid' hfill' hposition
  -- and back
  have hp' : rest.find? p.id = some (.node p.data (left ++ right)) :=
    find?_of_gap hclear hid hfill
  have hposition' : (Value.int i).IsPosition := .inr ⟨i, rfl⟩
  obtain ⟨before, hback, hbefore⟩ :=
    Draft.exists_insert hgrafted.toForeign hclear hid hfill hposition'
  have hindex : (Value.int i).indexAmong (left ++ right).length = left.length := by
    simp only [Value.indexAmong, Value.asNumber, List.length_append, hlength]
    split <;> omega
  have hsame : before = t := by
    have hwhole := hbefore.whole
    simp only [children, data, hindex, List.take_left, List.drop_left] at hwhole
    exact List.singleton_inj.1 (hwhole.symm.trans hgrafted.whole)
  refine ⟨rest, q', after, hgrafted.remove_eq, hq', hdata, hchildren, ?_, hafter.find?_eq, ?_, ?_,
    ?_⟩
  · rw [hgrafted.move_eq (hrestIds hq'), hthere]
  · rw [hafter.parent?_eq, grown_eq]
  · rw [hafter.filter_ids, hgrafted.filter_ids]
  · rw [hafter.move_eq (hrestIds hp'), hback, hsame]

/-- The box goes from the shelf to the depot, between the shelf and the rack, and back. -/
theorem move_and_back_depot :
    ∃ after, Draft.move (some depot) "box" "depot" (.int 1) = .ok after ∧
      after.find? "box" = some box ∧
      Draft.move (some after) "box" "shelf" (.int 0) = .ok depot := by
  have hids : Draft.ids (some depot) = ["depot", "shelf", "box", "rack"].map Value.text := by cbv
  have hshelf : .node { id := "shelf", label := "Shelf" } [box] ∈ preorder depot := by
    simp [depot, box, preorder, preorderAll]
  have hdepot : depot ∈ preorder depot := by simp [preorder_eq_cons]
  have hout : depot ∉ preorder box := by simp [depot, box, preorder, preorderAll]
  have hposition : (Value.int 1).IsPosition := .inr ⟨1, rfl⟩
  obtain ⟨rest, -, after, -, -, -, -, hmove, hfind, -, -, hback⟩ :=
    move_and_back (x := box) (i := 0) (.of_texts hids (by decide)) hshelf rfl hdepot hout hposition
  exact ⟨after, hmove, hfind, hback⟩

end BranchForm
