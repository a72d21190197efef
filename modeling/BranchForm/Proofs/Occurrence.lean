import BranchForm.Proofs.Amending
import BranchForm.Proofs.Spots
import Mathlib

/-!
# The occurrence that searches meet in

Ids may repeat in a tree, and so may whole subtrees. A search for a node, a search for the path to
it and an edit of it are written in different ways, and yet all of them stop at the same place: the
first one from the top at which the id is met.

* `Gap.place` is the place of a gap; `Gap.subtree?_place` : the tree in a gap stands there,
  `Gap.map_some_way` and `Gap.isChain_way` : the way to it leads from the top from child to child
  through the places above;
* `Gap.not_lt_place` : before a gap that is clear of an id there is no place at which the id is met,
  and `Spot.exists_split` says so in terms of the list from the top;
* `OptionTree.Meet` collects what the searches and edits do with an id, and
  `OptionTree.Meet.of_gap` proves it for a clear gap;
* `searches_meet` is the result, on drafts in which ids may repeat.
-/

namespace BranchForm

open OptionTree

namespace Gap

/-! ### The place of a gap -/

/-- The numbers of the children on the way down to a gap. -/
def place : Gap → List Nat
  | here => []
  | under _ left _ g => left.length :: g.place

variable {g : Gap} {s t u : OptionTree}

/-- In a tree with a gap below its top, the child that the way leads to is behind those on the
left. -/
theorem getElem?_children_under (d : Node) (left right : List OptionTree)
    (hu : g.fill [s] = [u]) :
    (OptionTree.node d (left ++ g.fill [s] ++ right)).children[left.length]? = some u := by
  simp [children, hu]

/-- What is put into a gap stands at its place. -/
theorem subtree?_place (hfill : g.fill [s] = [t]) : t.subtree? g.place = some s := by
  induction g generalizing t with
  | here => rw [List.singleton_inj.1 hfill, place, subtree?_nil]
  | under d left right g ih =>
    obtain rfl : .node d (left ++ g.fill [s] ++ right) = t := List.singleton_inj.1 hfill
    obtain ⟨u, hu⟩ := g.exists_fill s
    exact subtree?_cons_eq_some.2 ⟨u, getElem?_children_under d left right hu, ih hu⟩

/-- On the way to a gap stand the subtrees at the places above it, one below the other. -/
theorem map_some_way (hfill : g.fill [s] = [t]) :
    (g.above [s] ++ [s]).map some = g.place.inits.map t.subtree? := by
  induction g generalizing t with
  | here =>
    obtain rfl : s = t := List.singleton_inj.1 hfill
    rfl
  | under d left right g ih =>
    obtain rfl : .node d (left ++ g.fill [s] ++ right) = t := List.singleton_inj.1 hfill
    obtain ⟨u, hu⟩ := g.exists_fill s
    have hbelow : (fun way => (OptionTree.node d (left ++ g.fill [s] ++ right)).subtree?
        (left.length :: way)) = u.subtree? := by
      funext way
      rw [subtree?, getElem?_children_under d left right hu, Option.bind_some]
    rw [above, place, List.inits_cons, List.cons_append, List.map_cons, List.map_cons,
      List.map_map, ih hu, subtree?_nil]
    simp only [Function.comp_def, hbelow]

theorem head?_way (hfill : g.fill [s] = [t]) : (g.above [s] ++ [s]).head? = some t := by
  cases g with
  | here =>
    rw [← List.singleton_inj.1 hfill]
    rfl
  | under d left right g =>
    rw [← List.singleton_inj.1 hfill]
    rfl

/-- The way to a gap leads from child to child. -/
theorem isChain_way (g : Gap) (s : OptionTree) : (g.above [s] ++ [s]).IsChain Parent := by
  induction g with
  | here => exact .singleton s
  | under d left right g ih =>
    obtain ⟨u, hu⟩ := g.exists_fill s
    rw [above, List.cons_append, List.isChain_cons]
    refine ⟨fun v hv => ?_, ih⟩
    rw [head?_way hu, Option.mem_some_iff] at hv
    subst hv
    simp [Parent, children, hu]

/-- Before a gap that is clear of an id there is no place at which the id is met. -/
theorem not_lt_place {nodeId : Value} {way : List Nat} (hclear : g.Clear nodeId)
    (hfill : g.fill [s] = [t]) (hu : t.subtree? way = some u) (hid : u.id.agrees nodeId = true) :
    ¬ way < g.place := by
  induction g generalizing t way with
  | here => exact List.not_lt_nil _
  | under d left right g ih =>
    obtain ⟨htop, hleft, hclear⟩ := hclear
    obtain rfl : .node d (left ++ g.fill [s] ++ right) = t := List.singleton_inj.1 hfill
    obtain ⟨v, hv⟩ := g.exists_fill s
    cases way with
    | nil =>
      obtain rfl := Option.some.inj hu
      exact absurd hid (Bool.eq_false_iff.1 htop)
    | cons i way =>
      obtain ⟨c, hc, hu⟩ := subtree?_cons_eq_some.1 hu
      intro hlt
      rcases List.cons_lt_cons_iff.1 hlt with hi | ⟨rfl, hrest⟩
      · -- below the children on the left nothing has the id
        have hmem : c ∈ left := by
          simp only [children, List.append_assoc, List.getElem?_append_left hi] at hc
          exact List.mem_of_getElem? hc
        have hbelow : u ∈ preorderAll left :=
          mem_preorderAll.2 ⟨c, hmem, mem_preorder_iff_subtree?.2 ⟨way, hu⟩⟩
        exact absurd hid (Bool.eq_false_iff.1 (hleft u hbelow))
      · rw [getElem?_children_under d left right hv, Option.some.injEq] at hc
        subst hc
        exact ih hclear hv hu hrest

end Gap

/-- The first place at which an id is met comes first in the list from the top. -/
theorem Spot.exists_split {nodeId : Value} {t : OptionTree} {s : Spot}
    (hs : t.subtree? s.place = some s.tree)
    (hfirst : ∀ way u, t.subtree? way = some u → u.id.agrees nodeId = true → ¬ way < s.place) :
    ∃ before after, spots [] t = before ++ s :: after ∧
      ∀ r ∈ before, r.tree.id.agrees nodeId = false := by
  have hthere : s ∈ spots [] t := mem_spots.2 ⟨s.place, rfl, hs⟩
  obtain ⟨before, after, hsplit⟩ := List.append_of_mem hthere
  refine ⟨before, after, hsplit, fun r hr => ?_⟩
  have hmem : r ∈ spots [] t := hsplit ▸ List.mem_append_left _ hr
  obtain ⟨way, hplace, hr'⟩ := mem_spots.1 hmem
  obtain rfl : r.place = way := hplace
  have hsorted := spots_sorted [] t
  rw [hsplit, List.pairwise_append] at hsorted
  have hlt : r.place < s.place := hsorted.2.2 r hr s List.mem_cons_self
  rw [Bool.eq_false_iff]
  intro hid
  exact hfirst r.place r.tree hr' hid hlt

/-! ### What meets there -/

/-- All searches and edits by an id meet at one place of a tree, where a node fills a gap. -/
structure OptionTree.Meet (nodeId : Value) (t s : OptionTree) (g : Gap) : Prop where
  /-- With the node in the gap there is the whole tree. -/
  hangs : g.fill [s] = [t]
  /-- The node has the id. -/
  named : s.id.agrees nodeId = true
  /-- From the top it is the first one that has it. -/
  first : ∃ before after, spots [] t = before ++ ⟨g.place, s⟩ :: after ∧
    ∀ r ∈ before, r.tree.id.agrees nodeId = false
  /-- The search of the editor finds it. -/
  found : t.find? nodeId = some s
  /-- The path to it has the subtrees at the places above, -/
  path : (Draft.path (some t) nodeId).map some = g.place.inits.map t.subtree?
  /-- from the root -/
  top : (Draft.path (some t) nodeId).head? = some t
  /-- from child to child -/
  down : (Draft.path (some t) nodeId).IsChain Parent
  /-- to the node itself. -/
  last : (Draft.path (some t) nodeId).getLast? = some s
  /-- The depth is the number of steps on the path. -/
  depth : Draft.depth? (some t) nodeId = some g.place.length
  /-- The parent is the last but one on the path, if there are two. -/
  parent : ∀ p, Draft.parent? (some t) nodeId = some p ↔
    ∃ above, Draft.path (some t) nodeId = above ++ [p, s]
  /-- The trail shows the path, and the node on it as the one in view. -/
  trail : nodeId ≠ .null → Draft.breadcrumbs (some t) nodeId =
    (Draft.path (some t) nodeId).dropLast.map (fun u => ⟨u.id, u.label, false⟩) ++
      [⟨s.id, s.label, true⟩]
  /-- An update gives new values to this node. -/
  updated : ∀ (p : Patch) kind, p.newKind = .ok kind →
    Draft.update (some t) nodeId p = .ok (g.fill [p.apply kind s]).head?
  /-- A removal takes this node out. -/
  removed : Draft.remove (some t) nodeId = (g.fill []).head?

namespace Draft

theorem trail_concat (us : List OptionTree) (s : OptionTree) :
    trail (us ++ [s]) = us.map (fun u => ⟨u.id, u.label, false⟩) ++ [⟨s.id, s.label, true⟩] := by
  induction us with
  | nil => rfl
  | cons u us ih =>
    rw [List.cons_append, trail, ih, List.map_cons, List.cons_append]
    exact List.append_ne_nil_of_right_ne_nil us (List.cons_ne_nil s [])

theorem breadcrumbs_of_ne_null {nodeId : Value} (h : nodeId ≠ .null) (draft : Draft) :
    draft.breadcrumbs nodeId = trail (draft.path nodeId) := by
  cases nodeId with
  | null => exact absurd rfl h
  | _ => rfl

variable {draft : Draft} {nodeId : Value}

/-- Where no node has the id, there is no path. -/
theorem path_of_absent (h : draft.find? nodeId = none) : draft.path nodeId = [] := by
  cases draft with
  | none => rfl
  | some t =>
    have hfind : t.find? nodeId = none := h
    rw [find?_eq, List.find?_eq_none] at hfind
    have hpassed : ∀ u ∈ preorderAll (([(t, [t])] : List (OptionTree × List OptionTree)).map
        Prod.fst), u.id.agrees nodeId = false := by
      simpa [preorderAll] using hfind
    have hnone := searchPath_append hpassed []
    rwa [List.append_nil, searchPath] at hnone

theorem update_of_absent (h : draft.find? nodeId = none) (p : Patch) :
    draft.update nodeId p = .ok draft := by
  cases draft with
  | none => rfl
  | some t =>
    have hfind : t.find? nodeId = none := h
    rw [update, hfind]
    exact ite_self _

end Draft

section Clear

variable {nodeId : Value} {t s : OptionTree} {g : Gap}

/-- The places on the way to a gap are as many as the nodes on it. -/
theorem Gap.length_place (hfill : g.fill [s] = [t]) : g.place.length = (g.above [s]).length := by
  have hlength := congrArg List.length (Gap.map_some_way hfill)
  simp only [List.length_map, List.length_inits, List.length_append,
    List.length_singleton] at hlength
  exact (Nat.succ.inj hlength).symm

/-- A node with an id that fills a gap clear of it is where all searches and edits meet. -/
theorem OptionTree.Meet.of_gap (hclear : g.Clear nodeId) (hid : s.id.agrees nodeId = true)
    (hfill : g.fill [s] = [t]) : Meet nodeId t s g where
  hangs := hfill
  named := hid
  first := Spot.exists_split (s := ⟨g.place, s⟩) (Gap.subtree?_place hfill)
    fun _ _ hu hname => Gap.not_lt_place hclear hfill hu hname
  found := find?_of_gap hclear hid hfill
  path := by rw [Draft.path_of_gap hclear hid hfill, Gap.map_some_way hfill]
  top := by rw [Draft.path_of_gap hclear hid hfill, Gap.head?_way hfill]
  down := by
    rw [Draft.path_of_gap hclear hid hfill]
    exact g.isChain_way s
  last := by rw [Draft.path_of_gap hclear hid hfill, List.getLast?_concat]
  depth := by simp [Draft.depth?, Draft.path_of_gap hclear hid hfill, Gap.length_place hfill]
  parent p := by
    rw [Draft.parent?, Draft.path_of_gap hclear hid hfill, List.dropLast_concat,
      List.getLast?_eq_some_iff]
    refine exists_congr fun above => ?_
    rw [List.append_cons above p [s], List.append_left_inj]
  trail hnull := by
    rw [Draft.breadcrumbs_of_ne_null hnull, Draft.path_of_gap hclear hid hfill,
      List.dropLast_concat, Draft.trail_concat]
  updated p kind hkind := by
    rw [Draft.update_eq_amend hkind, Draft.amend_of_gap hclear hid hfill]
  removed := by rw [Draft.remove_eq_amend, Draft.amend_of_gap hclear hid hfill]

end Clear

/-- **All searches meet in one occurrence.** Ids may repeat in a draft. There is a path exactly if a
node is found. Without one there is no depth, no parent and no trail, and updates and removals leave
the draft. Otherwise all of them meet at the first place from the top at which the id is met. -/
theorem searches_meet (draft : Draft) (nodeId : Value) :
    (draft.path nodeId = [] ↔ draft.find? nodeId = none) ∧
      (draft.find? nodeId = none → draft.depth? nodeId = none ∧ draft.parent? nodeId = none ∧
        draft.breadcrumbs nodeId = [] ∧ (∀ p, draft.update nodeId p = .ok draft) ∧
        draft.remove nodeId = draft) ∧
      ∀ s, draft.find? nodeId = some s → ∃ t g, draft = some t ∧ Meet nodeId t s g := by
  refine ⟨⟨fun hpath => ?_, Draft.path_of_absent⟩, fun hnone => ?_, fun s hs => ?_⟩
  · by_contra hfound
    obtain ⟨s, hs⟩ := Option.ne_none_iff_exists'.1 hfound
    obtain ⟨t, g, rfl, hclear, hid, hfill⟩ := Draft.find?_inv hs
    have htop := (Meet.of_gap hclear hid hfill).top
    rw [hpath] at htop
    cases htop
  · have hpath := Draft.path_of_absent hnone
    refine ⟨?_, ?_, ?_, fun p => ?_, Draft.remove_of_absent hnone⟩
    · rw [Draft.depth?, hpath]
    · rw [Draft.parent?, hpath]
      rfl
    · by_cases hnull : nodeId = .null
      · rw [hnull]
        rfl
      · rw [Draft.breadcrumbs_of_ne_null hnull, hpath]
        rfl
    · exact Draft.update_of_absent hnone p
  · obtain ⟨t, g, rfl, hclear, hid, hfill⟩ := Draft.find?_inv hs
    exact ⟨t, g, rfl, .of_gap hclear hid hfill⟩

/-- A depot with a shelf and a rack, and on each of them one and the same box. -/
def twinBoxes : OptionTree :=
  .node { id := "depot", label := "Depot", kind := .root }
    [.node { id := "shelf", label := "Shelf" } [box], .node { id := "rack", label := "Rack" } [box]]

/-- It is the box on the shelf that is found, that is called a case and that is taken out. -/
theorem searches_meet_twinBoxes :
    (∃ g, Meet "box" twinBoxes box g ∧ g.place.length = 2 ∧
      (g.fill []).head? = some (.node { id := "depot", label := "Depot", kind := .root }
        [.node { id := "shelf", label := "Shelf" } [],
          .node { id := "rack", label := "Rack" } [box]]) ∧
      Draft.update (some twinBoxes) "box" { label := some "Case" } =
        .ok (g.fill [.node { id := "box", label := "Case" } []]).head?) ∧
      Draft.breadcrumbs (some twinBoxes) "crate" = [] := by
  have hfound : Draft.find? (some twinBoxes) "box" = some box := by cbv
  have hremove : Draft.remove (some twinBoxes) "box" =
      some (.node { id := "depot", label := "Depot", kind := .root }
        [.node { id := "shelf", label := "Shelf" } [],
          .node { id := "rack", label := "Rack" } [box]]) := by cbv
  have hdepth : Draft.depth? (some twinBoxes) "box" = some 2 := by cbv
  have hnone : Draft.find? (some twinBoxes) "crate" = none := by cbv
  obtain ⟨t, g, ht, hmeet⟩ := (searches_meet (some twinBoxes) "box").2.2 box hfound
  obtain rfl := Option.some.inj ht
  refine ⟨⟨g, hmeet, Option.some.inj (hmeet.depth.symm.trans hdepth),
    hmeet.removed.symm.trans hremove, hmeet.updated _ none rfl⟩,
    ((searches_meet (some twinBoxes) "crate").2.1 hnone).2.2.1⟩

end BranchForm
