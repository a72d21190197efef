import BranchForm.Proofs.Edits
import BranchForm.Proofs.Ways
import Mathlib

/-!
# Grafts

A tree that is put into another one brings ids which the other one does not have. So it is the only
place where its own id is met: the search for it ends in the gap it fills, and a removal leaves what
was there before.

* `OptionTree.grown` is a node with one more child, at the index that a position names;
* `Grafted` is a tree that hangs in a whole one, with the gap it fills and what is left without it;
  `Grafted.find?_eq`, `Grafted.remove_eq` and `Grafted.path_eq` are what comes of that;
* `Draft.exists_insert` : an insertion grafts the new tree right below the first node with the
  parent's id;
* `insert_below_first` is the whole result, on trees in which ids may repeat.
-/

namespace BranchForm

open OptionTree

/-- A node with one more child, at the index that a position names. -/
def OptionTree.grown (parent new : OptionTree) (position : Value) : OptionTree :=
  parent.withChildren
    (parent.children.insertIdx (position.indexAmong parent.children.length) new)

namespace OptionTree

theorem grown_eq (parent new : OptionTree) (position : Value) :
    parent.grown new position =
      .node parent.data (parent.children.take (position.indexAmong parent.children.length) ++
        [new] ++ parent.children.drop (position.indexAmong parent.children.length)) := by
  obtain ⟨d, cs⟩ := parent
  rw [grown, insertIdx_eq_take_drop new (position.indexAmong_le _), List.append_assoc]
  rfl

@[simp]
theorem id_grown (parent new : OptionTree) (position : Value) :
    (parent.grown new position).id = parent.id := by
  rw [grown_eq]
  rfl

end OptionTree

/-- A tree that brings no id of another one; the ids of both are texts. -/
structure Foreign (x rest : OptionTree) : Prop where
  /-- The ids of the tree are texts. -/
  texts : ∀ i ∈ x.ids, ∃ s, i = .text s
  /-- So are those of the other one. -/
  restTexts : ∀ i ∈ rest.ids, ∃ s, i = .text s
  /-- No id is in both. -/
  other : ∀ i ∈ x.ids, i ∉ rest.ids

/-- A tree that fills a gap in a whole one, of which there is a rest without it. -/
structure Grafted (g : Gap) (x rest t : OptionTree) : Prop extends Foreign x rest where
  /-- With the tree in the gap there is the whole. -/
  whole : g.fill [x] = [t]
  /-- With nothing in the gap there is the rest. -/
  without : g.fill [] = [rest]

namespace Grafted

variable {g : Gap} {x rest t : OptionTree}

/-- Without the ids of the tree those of the rest are left, in their order. -/
theorem filter_ids (h : Grafted g x rest t) :
    t.ids.filter (fun i => decide (i ∉ x.ids)) = rest.ids := by
  obtain ⟨pre, post, hwhole, hrest⟩ := Gap.exists_ids_fill h.whole h.without
  have hin : x.ids.filter (fun i => decide (i ∉ x.ids)) = [] := by
    simp [List.filter_eq_nil_iff]
  have hout : ∀ is : List Value, (∀ i ∈ is, i ∈ rest.ids) →
      is.filter (fun i => decide (i ∉ x.ids)) = is := fun is his =>
    List.filter_eq_self.2 fun i hi => decide_eq_true fun hx => h.other i hx (his i hi)
  rw [hwhole, hrest, List.filter_append, List.filter_append, hin, List.append_nil,
    hout pre (by simp +contextual [hrest]), hout post (by simp +contextual [hrest])]

theorem id_not_mem (h : Grafted g x rest t) : x.id ∉ rest.ids := h.other _ (id_mem_ids x)

/-- No node before the gap has the id of the tree. -/
theorem clear (h : Grafted g x rest t) : g.Clear x.id := by
  refine Gap.clear_of_absent fun u hu => ?_
  have hmem : u.id ∈ rest.ids := by
    rw [ids_eq_idsAll, ← h.without]
    exact List.mem_map_of_mem hu
  rw [Bool.eq_false_iff, Ne, Value.agrees_iff_of_text (h.restTexts _ hmem)]
  intro heq
  exact h.id_not_mem (heq ▸ hmem)

theorem agrees (h : Grafted g x rest t) : x.id.agrees x.id = true :=
  (Value.agrees_iff_of_text (h.texts _ (id_mem_ids x))).2 rfl

/-- The search for the tree ends in the gap. -/
theorem find?_eq (h : Grafted g x rest t) : t.find? x.id = some x :=
  find?_of_gap h.clear h.agrees h.whole

/-- A removal of the tree leaves the rest. -/
theorem remove_eq (h : Grafted g x rest t) : Draft.remove (some t) x.id = some rest := by
  rw [Draft.remove, Option.bind_some, replaceFirst_of_gap h.clear h.agrees h.whole,
    Option.getD_some, h.without, List.head?_cons]

/-- The path to the tree leads through those above the gap. -/
theorem path_eq (h : Grafted g x rest t) : Draft.path (some t) x.id = g.above [x] ++ [x] :=
  Draft.path_of_gap h.clear h.agrees h.whole

/-- The whole has the top of the rest. -/
theorem data_eq (h : Grafted g x rest t) : t.data = rest.data := by
  have hwhole := h.whole
  have hwithout := h.without
  cases g with
  | here => cases hwithout
  | under d left right g =>
    rw [← List.singleton_inj.1 hwhole, ← List.singleton_inj.1 hwithout]
    rfl

/-- The parent of a tree between the children of a node is this node, with the tree. -/
theorem parent?_eq {d : Node} {left right : List OptionTree}
    (h : Grafted (g.beneath d left right) x rest t) :
    Draft.parent? (some t) x.id = some (.node d (left ++ [x] ++ right)) := by
  rw [Draft.parent?, h.path_eq, Gap.above_beneath, List.dropLast_concat, List.getLast?_concat]

/-- The nodes of the whole are those above the gap, those of the tree and those beside the way. -/
theorem preorder_perm (h : Grafted g x rest t) :
    (preorder t).Perm (g.above [x] ++ (preorder x ++ preorderAll g.beside)) := by
  have hperm := g.preorderAll_fill_perm [x]
  simpa only [h.whole, preorderAll, List.append_nil] using hperm

/-- The nodes of the rest are those above the gap and those beside the way. -/
theorem rest_perm (h : Grafted g x rest t) :
    (preorder rest).Perm (g.above [] ++ preorderAll g.beside) := by
  have hperm := g.preorderAll_fill_perm []
  simpa only [h.without, preorderAll, List.append_nil, List.nil_append] using hperm

/-- The nodes beside the way keep their order, with the tree and without it. -/
theorem beside_sublist (h : Grafted g x rest t) :
    (preorderAll g.beside).Sublist (preorder rest) ∧
      (preorderAll g.beside).Sublist (preorder t) := by
  have hrest := g.preorderAll_beside_sublist []
  have hwhole := g.preorderAll_beside_sublist [x]
  rw [h.without] at hrest
  rw [h.whole] at hwhole
  simpa only [preorderAll, List.append_nil] using And.intro hrest hwhole

end Grafted

/-! ### Insertions -/

namespace Draft

variable {t new parent : OptionTree} {g : Gap} {parentId position : Value}

/-- **An insertion grafts.** Below the first node with the parent's id, between its children before
the index that the position names and those from there on, hangs the new tree. -/
theorem exists_insert (h : Foreign new t) (hclear : g.Clear parentId)
    (hid : parent.id.agrees parentId = true) (hfill : g.fill [parent] = [t])
    (hposition : position.IsPosition) :
    ∃ after, insert (some t) parentId (some new) position = .ok after ∧
      Grafted (g.beneath parent.data
        (parent.children.take (position.indexAmong parent.children.length))
        (parent.children.drop (position.indexAmong parent.children.length))) new t after := by
  obtain ⟨at?, hat, hplace⟩ := exists_place hposition new parent.children
  obtain ⟨after, hafter⟩ := g.exists_fill (parent.grown new position)
  refine ⟨after, ?_, h, ?_, ?_⟩
  · have hgrown : parent.withChildren (place at? new parent.children) =
        parent.grown new position := by
      rw [hplace, grown]
    rw [insert_eq_attach h.restTexts h.texts h.other]
    simp only [attach, find?_of_gap hclear hid hfill, hat, ok_bind,
      replaceFirst_of_gap hclear hid hfill, hgrown, hafter]
    rfl
  · rw [Gap.fill_beneath, ← hafter, grown_eq]
  · obtain ⟨d, cs⟩ := parent
    rw [Gap.fill_beneath, ← hfill, List.append_nil, List.take_append_drop]
    rfl

end Draft

/-- **Insertion puts a tree in the right place, and removal undoes it.** Ids may repeat in the
tree and in the new one. The parent is the first node with the id named, and with the new child it
stands where it stood, and is the first one still: everything around is as it was. The new tree is
found there, one step below its parent. What is not above it is unchanged, and taken out again it leaves the tree as it was. -/
theorem insert_below_first {t new : OptionTree} {parentId position : Value}
    (htexts : ∀ i ∈ t.ids, ∃ s, i = .text s) (hnew : ∀ i ∈ new.ids, ∃ s, i = .text s)
    (hother : ∀ i ∈ new.ids, i ∉ t.ids) (hparent : parentId ∈ t.ids)
    (hposition : position.IsPosition) :
    ∃ (g : Gap) (after parent : OptionTree),
      Draft.insert (some t) parentId (some new) position = .ok after ∧
      -- the parent is the first node with its id, and gives way to itself with one more child
      (preorder t).find? (fun u => decide (u.id = parentId)) = some parent ∧
      g.fill [parent] = [t] ∧ g.fill [parent.grown new position] = [after] ∧
      after.find? parentId = some (parent.grown new position) ∧
      -- the new tree is found, below the parent
      after.find? new.id = some new ∧
      Draft.parent? (some after) new.id = some (parent.grown new position) ∧
      (parent.grown new position).id = parentId ∧
      (∃ depth, Draft.depth? (some t) parentId = some depth ∧
        Draft.depth? (some after) new.id = some (depth + 1)) ∧
      -- the nodes that are not above the new tree are those of before, and its own
      (∃ others, (preorder t).Perm (Draft.path (some t) parentId ++ others) ∧
        (preorder after).Perm
          ((Draft.path (some after) new.id).dropLast ++ (preorder new ++ others)) ∧
        others.Sublist (preorder t) ∧ others.Sublist (preorder after)) ∧
      Draft.remove (some after) new.id = some t := by
  have hids : ∀ i ∈ Draft.ids (some t), ∃ s, i = .text s := htexts
  obtain ⟨parent, hfind⟩ := (Draft.find?_iff hids).2 hparent
  have hfound : t.find? parentId = some parent := hfind
  obtain ⟨g, hclear, hid, hfill⟩ := exists_clear_gap hfound
  obtain ⟨after, hinsert, hgrafted⟩ :=
    Draft.exists_insert ⟨hnew, htexts, hother⟩ hclear hid hfill hposition
  have hfirst : (preorder t).find? (fun u => decide (u.id = parentId)) = some parent := by
    rw [← find?_eq_of_texts htexts, hfound]
  have hgrownId : (parent.grown new position).id = parentId := by
    simpa using List.find?_some hfirst
  have hgrown : g.fill [parent.grown new position] = [after] := by
    rw [grown_eq, ← Gap.fill_beneath, hgrafted.whole]
  -- the way to the new tree is the way to its parent and one step more
  have hpath : Draft.path (some t) parentId = g.above [parent] ++ [parent] :=
    Draft.path_of_gap hclear hid hfill
  have hpathNew : Draft.path (some after) new.id =
      g.above [parent.grown new position] ++ [parent.grown new position] ++ [new] := by
    rw [hgrafted.path_eq, Gap.above_beneath, ← grown_eq]
  have hparentNode : .node parent.data parent.children = parent := by
    cases parent
    rfl
  have hlength : (g.above [parent.grown new position]).length = (g.above [parent]).length := by
    simpa using congrArg List.length (g.map_data_above [parent.grown new position] [parent])
  have hagain : after.find? parentId = some (parent.grown new position) :=
    find?_of_gap hclear (by rwa [id_grown]) hgrown
  refine ⟨g, after, parent, hinsert, hfirst, hfill, hgrown, hagain, hgrafted.find?_eq, ?_,
    hgrownId, ?_, ?_, hgrafted.remove_eq⟩
  · rw [hgrafted.parent?_eq, grown_eq]
  · refine ⟨(g.above [parent]).length, ?_, ?_⟩
    · simp [Draft.depth?, hpath]
    · simp [Draft.depth?, hpathNew, hlength]
  · refine ⟨_, ?_, ?_, hgrafted.beside_sublist⟩
    · have hrest := hgrafted.rest_perm
      rwa [Gap.above_beneath, List.append_nil, List.take_append_drop, hparentNode, ← hpath] at hrest
    · rw [hpathNew, List.dropLast_concat, grown_eq, ← Gap.above_beneath]
      exact hgrafted.preorder_perm

/-- A depot with two shelves of one id. -/
def twinShelves : OptionTree :=
  .node { id := "depot", label := "Depot", kind := .root }
    [.node { id := "shelf", label := "Shelf" } [.node { id := "box", label := "Box" } []],
      .node { id := "shelf", label := "Shelf" } []]

theorem insert_below_first_twinShelves :
    ∃ after, Draft.insert (some twinShelves) "shelf" (some crate) (.int 0) = .ok after ∧
      after.find? "shelf" = some (.node { id := "shelf", label := "Shelf" } [crate, box]) ∧
      after.find? "crate" = some crate ∧ Draft.depth? (some after) "crate" = some 2 ∧
      Draft.remove (some after) "crate" = some twinShelves := by
  have hids : twinShelves.ids = ["depot", "shelf", "box", "shelf"].map Value.text := by cbv
  have hcrate : crate.ids = ["crate", "lid"].map Value.text := by cbv
  have hdepth : Draft.depth? (some twinShelves) "shelf" = some 1 := by cbv
  have hfull : (preorder twinShelves).find? (fun u => decide (u.id = .text "shelf")) =
      some (.node { id := "shelf", label := "Shelf" } [box]) := by cbv
  have htexts : ∀ i ∈ twinShelves.ids, ∃ s, i = .text s := by simp [hids]
  have hnew : ∀ i ∈ crate.ids, ∃ s, i = .text s := by simp [hcrate]
  have hother : ∀ i ∈ crate.ids, i ∉ twinShelves.ids := by
    rw [hids, hcrate]
    decide
  have hshelf : .text "shelf" ∈ twinShelves.ids := by
    rw [hids]
    decide
  have hposition : (Value.int 0).IsPosition := .inr ⟨0, rfl⟩
  obtain ⟨g, after, parent, hinsert, hfirst, -, -, hagain, hfind, -, -,
    ⟨depth, hparent, hbelow⟩, -, hremove⟩ :=
    insert_below_first htexts hnew hother hshelf hposition
  rw [hfull, Option.some.injEq] at hfirst
  subst hfirst
  rw [hdepth, Option.some.injEq] at hparent
  subst hparent
  exact ⟨after, hinsert, hagain, hfind, hbelow, hremove⟩

end BranchForm
