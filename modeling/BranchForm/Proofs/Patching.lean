import BranchForm.Proofs.Amending
import Mathlib

/-!
# Updates as patches of one node

An update gives new values to the first node with an id. All that is not above or below this node is
as it was, the node is found again under its id, and what is patched next is patched over it.

* `Patch.merge` is one patch over another, field by field; `Patch.apply_merge` : it is what the two
  come to one after the other; `Patch.ofMembers_merge` : it is read from the records put over each
  other;
* `Draft.amend_again` : a second amendment of a node that keeps its id is made on the first one, so
  patches merge and a display that is turned over twice is as it was (`Draft.exists_toggle_toggle`);
* `OptionTree.DifferAt` are two trees that differ at one node, `Draft.exists_amend_differAt` : so do
  those before and after an amendment;
* `OptionTree.PatchedBy` is what a record makes of a node;
* `update_patches_first` is the whole result, on drafts in which ids may repeat.
-/

namespace BranchForm

open OptionTree

/-! ### Patches over patches -/

namespace Patch

/-- A patch with another one over it. -/
def merge (p q : Patch) : Patch where
  id := q.id.or p.id
  label := q.label.or p.label
  kind := q.kind.or p.kind
  multiple := q.multiple.or p.multiple
  image := q.image.or p.image
  expanded := q.expanded.or p.expanded
  children := q.children.or p.children

variable {p q : Patch} {kind kind' : Option NodeKind}

theorem merge_self (p : Patch) : p.merge p = p := by simp [merge]

theorem newKind_eq_ok_iff : p.newKind = .ok kind ↔
    p.kind = none ∧ kind = none ∨
      ∃ v k, p.kind = some v ∧ NodeKind.ofValue? v = some k ∧ kind = some k := by
  rw [newKind]
  cases p.kind with
  | none => simp [eq_comm]
  | some v => cases hv : NodeKind.ofValue? v <;> simp [hv, Value.fail, eq_comm]

theorem newKind_merge (hkind : p.newKind = .ok kind) (hkind' : q.newKind = .ok kind') :
    (p.merge q).newKind = .ok (kind'.or kind) := by
  rw [newKind_eq_ok_iff] at hkind hkind' ⊢
  rcases hkind' with ⟨hrole, rfl⟩ | ⟨v, k, hrole, hv, rfl⟩
  · simpa [merge, hrole] using hkind
  · exact .inr ⟨v, k, by simp [merge, hrole], hv, rfl⟩

/-- Two patches, one after the other, come to the second over the first. -/
theorem apply_merge (s : OptionTree) :
    q.apply kind' (p.apply kind s) = (p.merge q).apply (kind'.or kind) s := by
  obtain ⟨d, cs⟩ := s
  simp [apply, merge, Option.getD_or]

/-- A patch that does not name the id leaves it. -/
theorem id_apply (hid : p.id = none) (s : OptionTree) : (p.apply kind s).id = s.id := by
  obtain ⟨d, cs⟩ := s
  rw [apply, hid]
  rfl

theorem not_field_of_reserved : ∀ name ∈ reservedNames, name ∉ fieldNames := by decide

section Records

variable {nodeId : Value} {first second : Members}

theorem childrenOf_putAll {children children' : Option (List OptionTree)}
    (hd : (Members.names second).Nodup) (htexts : ∀ m ∈ second, ∃ s, m.1 = .text s)
    (h : childrenOf first = .ok children) (h' : childrenOf second = .ok children') :
    childrenOf (Members.putAll first second) = .ok (children'.or children) := by
  rw [childrenOf, Members.get?_putAll hd htexts]
  rw [childrenOf] at h'
  cases hget : Members.get? second "children" with
  | none =>
    rw [hget] at h'
    cases h'
    exact h
  | some v =>
    rw [hget] at h'
    obtain ⟨vs, hvs, h'⟩ := bind_eq_ok_iff.1 h'
    obtain ⟨ts, hts, h'⟩ := bind_eq_ok_iff.1 h'
    cases h'
    simp [hvs, hts]

/-- Two records that are patches are one over the other as well, put together before they are read
or named apart. -/
theorem ofMembers_merge (h : ofMembers nodeId first [] = .ok p)
    (h' : ofMembers nodeId second [] = .ok q) (hd : (Members.names second).Nodup) :
    ofMembers nodeId (Members.putAll first second) [] = .ok (p.merge q) ∧
      ofMembers nodeId first second = .ok (p.merge q) := by
  obtain ⟨children, _, hchildren, hnone, hfree, hknown, rfl⟩ := ofMembers_ok_iff.1 h
  obtain ⟨children', _, hchildren', hnone', -, hknown', rfl⟩ := ofMembers_ok_iff.1 h'
  cases hnone
  cases hnone'
  have hempty (ms : Members) : Members.putAll ms [] = ms := rfl
  simp only [hempty] at hknown hknown' ⊢
  have htexts : ∀ m ∈ second, ∃ s, m.1 = .text s := by
    intro m hm
    obtain ⟨s, -, hs⟩ := List.mem_map.1 (hknown' m.1 (List.mem_map_of_mem hm))
    exact ⟨s, hs.symm⟩
  have hnames : ∀ name ∈ Members.names (Members.putAll first second),
      name ∈ fieldNames.map Value.text := by
    intro name hname
    rcases List.mem_append.1 (Members.names_putAll_subset first second hname) with hname | hname
    · exact hknown name hname
    · exact hknown' name hname
  -- no name of a field is reserved
  have hfree' : ∀ name ∈ reservedNames, Members.has second (.text name) = false := by
    intro name hname
    rw [Members.has, Option.isSome_eq_false_iff, Option.isNone_iff_eq_none,
      Members.get?_eq_none_iff]
    intro hmem
    exact not_field_of_reserved name hname (by simpa using hknown' _ hmem)
  refine ⟨ofMembers_ok_iff.2 ⟨_, none, childrenOf_putAll hd htexts hchildren hchildren', rfl, hfree,
    hnames, ?_⟩, ofMembers_ok_iff.2 ⟨children, children', hchildren, hchildren', hfree', hnames, ?_⟩⟩
  · simp [merge, hempty, Members.get?_putAll hd htexts]
  · simp [merge, Members.get?_putAll hd htexts]

end Records

end Patch

/-! ### Edits again -/

/-- A second amendment of a node that keeps its id is made on the first one. -/
theorem Draft.amend_again {nodeId : Value} {f g : OptionTree → OptionTree}
    (hf : ∀ s, (f s).id = s.id) (draft : Draft) :
    (draft.amend nodeId fun s => [f s]).amend nodeId (fun s => [g s]) =
      draft.amend nodeId fun s => [g (f s)] := by
  cases hs : draft.find? nodeId with
  | none => rw [amend_of_absent hs, amend_of_absent hs, amend_of_absent hs]
  | some s =>
    obtain ⟨t, gap, rfl, hclear, hid, hfill⟩ := find?_inv hs
    obtain ⟨u, hu⟩ := gap.exists_fill (f s)
    have hid' : (f s).id.agrees nodeId = true := by rwa [hf]
    rw [amend_of_gap hclear hid hfill, amend_of_gap hclear hid hfill, hu, List.head?_cons,
      amend_of_gap hclear hid' hu]

/-- The display of a node that is turned over twice is as it was. -/
theorem Draft.exists_toggle_toggle {draft : Draft} {nodeId : Value}
    (hflag : ∀ s, draft.find? nodeId = some s → ∃ b, s.data.expanded = .bool b) :
    ∃ turned, draft.toggle nodeId = .ok turned ∧ turned.toggle nodeId = .ok draft := by
  refine ⟨_, toggle_eq_amend draft nodeId, ?_⟩
  have hid (s : OptionTree) : s.turned.id = s.id := by
    cases s
    rfl
  have hback : ∀ s, draft.find? nodeId = some s → [s.turned.turned] = [s] := by
    intro s hs
    obtain ⟨b, hb⟩ := hflag s hs
    obtain ⟨⟨id, label, kind, multiple, image, expanded⟩, cs⟩ := s
    obtain rfl : expanded = .bool b := hb
    simp [turned, Value.truthy]
  rw [toggle_eq_amend, amend_again hid, amend_congr hback, amend_self]

/-! ### The rest of a tree -/

/-- Two trees that differ at the node of an id only: the one has a node there that gave way to
another one, which is found now. -/
structure OptionTree.DifferAt (nodeId : Value) (s u t after : OptionTree) : Prop where
  /-- The one node is found in the one tree. -/
  before : t.find? nodeId = some s
  /-- The other one is found in the other tree. -/
  found : after.find? nodeId = some u
  /-- Both stand in the same place, and around it the trees are one. -/
  around : ∃ g : Gap, g.fill [s] = [t] ∧ g.fill [u] = [after]
  /-- Both trees have the same nodes, in the same order, but for those above the node, itself and
  those below it. -/
  others : ∃ others, (preorder t).Perm
      ((Draft.path (some t) nodeId).dropLast ++ (preorder s ++ others)) ∧
    (preorder after).Perm ((Draft.path (some after) nodeId).dropLast ++ (preorder u ++ others)) ∧
    others.Sublist (preorder t) ∧ others.Sublist (preorder after)

/-- An amendment of a node that keeps its id makes a difference at this node only. -/
theorem Draft.exists_amend_differAt {nodeId : Value} {f : OptionTree → OptionTree} {s t : OptionTree}
    (hid : (f s).id = s.id) (h : t.find? nodeId = some s) :
    ∃ after, amend (some t) nodeId (fun s => [f s]) = some after ∧
      DifferAt nodeId s (f s) t after := by
  obtain ⟨g, hclear, hagrees, hfill⟩ := exists_clear_gap h
  have hagrees' : (f s).id.agrees nodeId = true := by rwa [hid]
  obtain ⟨after, hafter⟩ := g.exists_fill (f s)
  have hnodes {u v : OptionTree} (hu : u.id.agrees nodeId = true) (hv : g.fill [u] = [v]) :
      (preorder v).Perm ((path (some v) nodeId).dropLast ++ (preorder u ++ preorderAll g.beside)) ∧
        (preorderAll g.beside).Sublist (preorder v) := by
    have hperm := g.preorderAll_fill_perm [u]
    have hsub := g.preorderAll_beside_sublist [u]
    rw [path_of_gap hclear hu hv, List.dropLast_concat]
    simpa only [hv, preorderAll, List.append_nil] using And.intro hperm hsub
  obtain ⟨hbefore, hsub⟩ := hnodes hagrees hfill
  obtain ⟨hnow, hsub'⟩ := hnodes hagrees' hafter
  refine ⟨after, by rw [amend_of_gap hclear hagrees hfill, hafter, List.head?_cons], h,
    find?_of_gap hclear hagrees' hafter, ⟨g, hfill, hafter⟩, _, hbefore, hnow, hsub, hsub'⟩

/-! ### Patched nodes -/

/-- A node is another one with some fields set by a record, and no other field changed. -/
structure OptionTree.PatchedBy (ms : Members) (s u : OptionTree) : Prop where
  /-- The id is kept. -/
  id : u.id = s.id
  /-- The label is that of the record if it has one. -/
  label : u.data.label = (Members.get? ms "label").getD s.data.label
  /-- The role is the one that the record names, if it names one. -/
  kind : Members.get? ms "kind" = none ∧ u.data.kind = s.data.kind ∨
    ∃ v, Members.get? ms "kind" = some v ∧ NodeKind.ofValue? v = some u.data.kind
  /-- So it is with the choice of several children together. -/
  multiple : u.data.multiple = (Members.get? ms "allow_multiple").getD s.data.multiple
  /-- So it is with the image. -/
  image : u.data.image = (Members.get? ms "image_url").getD s.data.image
  /-- So it is with the state of display. -/
  expanded : u.data.expanded = (Members.get? ms "is_expanded").getD s.data.expanded
  /-- The children are those that the record lists, if it lists some. -/
  children : Members.get? ms "children" = none ∧ u.children = s.children ∨
    ∃ v vs, Members.get? ms "children" = some v ∧ v.elements = .ok vs ∧
      decodeAll vs = .ok u.children

theorem Patch.patchedBy {nodeId : Value} {ms : Members} {p : Patch} {kind : Option NodeKind}
    (hread : Patch.ofMembers nodeId ms [] = .ok p) (hid : p.id = none)
    (hkind : p.newKind = .ok kind) (s : OptionTree) : PatchedBy ms s (p.apply kind s) := by
  obtain ⟨children, _, hchildren, hnone, -, -, rfl⟩ := ofMembers_ok_iff.1 hread
  cases hnone
  have hempty : Members.putAll ms [] = ms := rfl
  simp only [hempty] at hkind ⊢
  obtain ⟨d, cs⟩ := s
  refine ⟨id_apply hid (.node d cs), rfl, ?_, rfl, rfl, rfl, ?_⟩
  · obtain ⟨hrole, rfl⟩ | ⟨v, k, hrole, hv, rfl⟩ := newKind_eq_ok_iff.1 hkind
    · exact .inl ⟨hrole, rfl⟩
    · exact .inr ⟨v, hrole, hv⟩
  · rw [childrenOf] at hchildren
    split at hchildren
    · rename_i habsent
      cases hchildren
      exact .inl ⟨habsent, rfl⟩
    · rename_i v hv
      obtain ⟨vs, hvs, hout⟩ := bind_eq_ok_iff.1 hchildren
      obtain ⟨ts, hts, hout⟩ := bind_eq_ok_iff.1 hout
      cases hout
      exact .inr ⟨v, vs, hv, hvs, hts⟩

/-! ### Updates -/

/-- **Updates are lawful patches of one node.** Ids may repeat in the draft, and a record may name
all fields but the id. After an update the node found before is found again with the fields of the
record and no other change, and all that is neither above nor below it is as it was. An update by
another record comes to one by both, the second over the first; so an update made again changes
nothing. An id that is not there leaves the draft, and so does a display that is turned over
twice. -/
theorem update_patches_first {nodeId : Value} {first second : Members}
    (hfirst : Members.ArePatch nodeId first []) (hkeeps : .text "id" ∉ Members.names first)
    (hsecond : Members.ArePatch nodeId second []) (hd : (Members.names second).Nodup)
    (draft : Draft) :
    ∃ once twice : Draft,
      (Edit.update nodeId first []).apply draft = .ok once ∧
      (∀ t s, draft = some t → t.find? nodeId = some s →
        ∃ after u, once = some after ∧ PatchedBy first s u ∧ DifferAt nodeId s u t after) ∧
      (draft.find? nodeId = none → once = draft) ∧
      -- another update, by itself or with the first one
      (Edit.update nodeId second []).apply once = .ok twice ∧
      (Edit.update nodeId (Members.putAll first second) []).apply draft = .ok twice ∧
      (Edit.update nodeId first second).apply draft = .ok twice ∧
      (Edit.update nodeId first []).apply once = .ok once ∧
      -- the display turned over and back
      ((∀ s, draft.find? nodeId = some s → ∃ b, s.data.expanded = .bool b) →
        ∃ turned, (Edit.toggle nodeId).apply draft = .ok turned ∧
          (Edit.toggle nodeId).apply turned = .ok draft) := by
  obtain ⟨p, kind, hp, hkind, happly⟩ := Edit.exists_apply_update hfirst
  obtain ⟨q, kind', hq, hkind', happly'⟩ := Edit.exists_apply_update hsecond
  obtain ⟨hmerge, hover⟩ := Patch.ofMembers_merge hp hq hd
  have hid : p.id = none := by
    obtain ⟨-, -, -, -, -, -, rfl⟩ := Patch.ofMembers_ok_iff.1 hp
    exact Members.get?_eq_none_iff.2 hkeeps
  have hboth {patch changes : Members}
      (hread : Patch.ofMembers nodeId patch changes = .ok (p.merge q)) :
      (Edit.update nodeId patch changes).apply draft =
        .ok ((draft.amend nodeId fun s => [p.apply kind s]).amend nodeId
          fun s => [q.apply kind' s]) := by
    rw [Edit.apply, hread, ok_bind, Draft.update_eq_amend (Patch.newKind_merge hkind hkind'),
      Draft.amend_again (Patch.id_apply hid)]
    simp only [Patch.apply_merge]
  refine ⟨_, _, happly draft, ?_, Draft.amend_of_absent, happly' _, hboth hmerge, hboth hover, ?_,
    Draft.exists_toggle_toggle⟩
  · rintro t s rfl hs
    obtain ⟨after, hafter, hdiffer⟩ :=
      Draft.exists_amend_differAt (f := p.apply kind) (Patch.id_apply hid s) hs
    exact ⟨after, _, hafter, Patch.patchedBy hp hid hkind s, hdiffer⟩
  · rw [happly, Draft.amend_again (Patch.id_apply hid)]
    simp only [Patch.apply_merge, Patch.merge_self, Option.or_self]

/-- A shelf becomes a board without boxes, and is hidden and called a plank. -/
theorem update_patches_first_twinShelves :
    ∃ once twice : Draft,
      (Edit.update "shelf" [("label", "Board"), ("children", .list [])] []).apply
        (some twinShelves) = .ok once ∧
      (∃ u, once.find? "shelf" = some u ∧ u.data.label = "Board" ∧ u.children = []) ∧
      (Edit.update "shelf" [("is_expanded", .bool false), ("label", "Plank")] []).apply once =
        .ok twice ∧
      (Edit.update "shelf" [("label", "Plank"), ("children", .list []),
        ("is_expanded", .bool false)] []).apply (some twinShelves) = .ok twice ∧
      ∃ turned, (Edit.toggle "shelf").apply (some twinShelves) = .ok turned ∧
        (Edit.toggle "shelf").apply turned = .ok (some twinShelves) := by
  have hfirst : Members.ArePatch "shelf" [("label", "Board"), ("children", .list [])] [] :=
    ⟨_, _, rfl, rfl⟩
  have hsecond : Members.ArePatch "shelf" [("is_expanded", .bool false), ("label", "Plank")] [] :=
    ⟨_, _, rfl, rfl⟩
  have hshelf : twinShelves.find? "shelf" =
      some (.node { id := "shelf", label := "Shelf" } [box]) := by cbv
  have hflag : ∀ s, Draft.find? (some twinShelves) "shelf" = some s →
      ∃ b, s.data.expanded = .bool b := by
    intro s hs
    obtain rfl := Option.some.inj (hshelf.symm.trans hs)
    exact ⟨true, rfl⟩
  obtain ⟨once, twice, honce, hdiffer, -, htwice, hmerged, -, -, htoggle⟩ :=
    update_patches_first hfirst (by decide) hsecond (by decide) (some twinShelves)
  obtain ⟨after, u, rfl, hpatched, hfound⟩ := hdiffer _ _ rfl hshelf
  refine ⟨_, twice, honce, ⟨u, hfound.found, hpatched.label, ?_⟩, htwice, hmerged, htoggle hflag⟩
  obtain ⟨hnone, -⟩ | ⟨v, vs, hv, hvs, hts⟩ := hpatched.children
  · cases hnone
  · cases hv
    cases hvs
    exact (Except.ok.inj hts).symm

end BranchForm
