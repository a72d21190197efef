import BranchForm.Proofs.Trees
import BranchForm.Tree.Edit
import Mathlib.Data.List.Find

/-!
# Gaps in a tree

Every edit finds the first node with an id and puts other trees where it stands. What is left of a
tree when a node is lifted out with all below it is a gap: the nodes above, each with the children
to the left and to the right of the way down.

* `Gap.fill` puts trees into a gap; with the tree that stood there, the whole tree is back;
* `Gap.Clear` says that no node met before a gap has an id, `Gap.clear_of_absent` : it holds if no
  node of the tree outside the gap has it;
* `OptionTree.exists_clear_gap` : a search that finds a node ends at a clear gap;
  `OptionTree.find?_of_gap` : what stands in a clear gap is found;
* `OptionTree.replaceFirst_of_gap` and `OptionTree.exists_gap_of_find?` : an edit of the node found
  fills the gap anew and changes nothing else;
* `Gap.exists_data` : around a gap the nodes stay as they are, and so do their ids
  (`Gap.exists_ids`).
-/

namespace BranchForm

/-- A tree with one place left open, from the top. -/
inductive Gap where
  /-- The whole tree is left open. -/
  | here
  /-- The place left open is below a node, between the children on both sides of the way down. -/
  | under (data : Node) (left right : List OptionTree) (g : Gap)

open OptionTree

namespace Gap

/-- The trees that there are with some trees in a gap: one tree if there is a node above. -/
def fill : Gap → List OptionTree → List OptionTree
  | here, us => us
  | under d left right g, us => [.node d (left ++ g.fill us ++ right)]

/-- No node that comes before a gap in the order from the top has an id. -/
def Clear (nodeId : Value) : Gap → Prop
  | here => True
  | under d left _ g => d.id.agrees nodeId = false ∧
    (∀ u ∈ preorderAll left, u.id.agrees nodeId = false) ∧ g.Clear nodeId

/-- One tree in a gap makes one tree. -/
theorem exists_fill (g : Gap) (u : OptionTree) : ∃ t, g.fill [u] = [t] := by
  cases g with
  | here => exact ⟨u, rfl⟩
  | under d left right g => exact ⟨_, rfl⟩

/-- A gap is clear of an id that no node outside it has. -/
theorem clear_of_absent {nodeId : Value} {g : Gap}
    (h : ∀ u ∈ preorderAll (g.fill []), u.id.agrees nodeId = false) : g.Clear nodeId := by
  induction g with
  | here => trivial
  | under d left right g ih =>
    have hnodes : preorderAll ((under d left right g).fill []) =
        .node d (left ++ g.fill [] ++ right) ::
          (preorderAll left ++ (preorderAll (g.fill []) ++ preorderAll right)) := by
      simp [fill, preorderAll, preorder, preorderAll_append]
    rw [hnodes, List.forall_mem_cons, List.forall_mem_append, List.forall_mem_append] at h
    obtain ⟨htop, hleft, hbelow, -⟩ := h
    exact ⟨htop, hleft, ih hbelow⟩

end Gap

namespace OptionTree

theorem find?_eq (t : OptionTree) (nodeId : Value) :
    t.find? nodeId = (preorder t).find? fun u => u.id.agrees nodeId := by
  rw [find?, nodes_eq_preorder]

mutual

/-- A search through a tree ends at a gap. -/
theorem exists_gap {nodeId : Value} {s t : OptionTree}
    (h : (preorder t).find? (fun u => u.id.agrees nodeId) = some s) :
    ∃ g : Gap, g.Clear nodeId ∧ g.fill [s] = [t] := by
  match t with
  | .node d cs =>
    rw [preorder, List.find?_cons] at h
    by_cases hid : d.id.agrees nodeId = true
    · have htop : OptionTree.node d cs = s := by simpa [OptionTree.id, data, hid] using h
      exact ⟨.here, trivial, by rw [Gap.fill, htop]⟩
    · have hbelow : (preorderAll cs).find? (fun u => u.id.agrees nodeId) = some s := by
        simpa [OptionTree.id, data, hid] using h
      obtain ⟨left, c, right, g, hcs, hleft, hclear, hfill⟩ := exists_gap_among hbelow
      refine ⟨.under d left right g, ⟨Bool.eq_false_iff.2 hid, hleft, hclear⟩, ?_⟩
      simp [Gap.fill, hfill, hcs]

/-- A search through several trees ends at a gap in one of them. -/
theorem exists_gap_among {nodeId : Value} {s : OptionTree} {ts : List OptionTree}
    (h : (preorderAll ts).find? (fun u => u.id.agrees nodeId) = some s) :
    ∃ left t right, ∃ g : Gap, ts = left ++ t :: right ∧
      (∀ u ∈ preorderAll left, u.id.agrees nodeId = false) ∧ g.Clear nodeId ∧
      g.fill [s] = [t] := by
  match ts with
  | [] => cases h
  | t :: ts =>
    rw [preorderAll, List.find?_append] at h
    cases hfirst : (preorder t).find? fun u => u.id.agrees nodeId with
    | some u =>
      rw [hfirst, Option.some_or, Option.some.injEq] at h
      obtain ⟨g, hclear, hfill⟩ := exists_gap (hfirst.trans (congrArg some h))
      exact ⟨[], t, ts, g, rfl, nofun, hclear, hfill⟩
    | none =>
      rw [hfirst, Option.none_or] at h
      obtain ⟨left, u, right, g, rfl, hleft, hclear, hfill⟩ := exists_gap_among h
      refine ⟨t :: left, u, right, g, rfl, fun v hv => ?_, hclear, hfill⟩
      rcases List.mem_append.1 hv with hv | hv
      · exact Bool.eq_false_iff.2 (List.find?_eq_none.1 hfirst v hv)
      · exact hleft v hv

end

/-! ### Filling a gap anew -/

mutual

/-- Where no node has the id, nothing is replaced. -/
theorem replaceFirst_of_absent {nodeId : Value} {t : OptionTree}
    (h : ∀ u ∈ preorder t, u.id.agrees nodeId = false) (f : OptionTree → List OptionTree) :
    t.replaceFirst nodeId f = none := by
  match t with
  | .node d cs =>
    have htop : d.id.agrees nodeId = false := h _ List.mem_cons_self
    simp [replaceFirst, htop,
      replaceFirstIn_of_absent (fun u hu => h u (List.mem_cons_of_mem _ hu)) f]

theorem replaceFirstIn_of_absent {nodeId : Value} {ts : List OptionTree}
    (h : ∀ u ∈ preorderAll ts, u.id.agrees nodeId = false) (f : OptionTree → List OptionTree) :
    replaceFirstIn nodeId f ts = none := by
  match ts with
  | [] => rfl
  | t :: ts =>
    simp [replaceFirstIn,
      replaceFirst_of_absent (fun u hu => h u (List.mem_append_left _ hu)) f,
      replaceFirstIn_of_absent (fun u hu => h u (List.mem_append_right _ hu)) f]

end

section Append

variable {nodeId : Value} {f : OptionTree → List OptionTree} {ss us : List OptionTree}

/-- What is replaced in the first of two sequences of trees is replaced in both. -/
theorem replaceFirstIn_append_of_some (h : replaceFirstIn nodeId f ss = some us)
    (ts : List OptionTree) : replaceFirstIn nodeId f (ss ++ ts) = some (us ++ ts) := by
  induction ss generalizing us with
  | nil => cases h
  | cons s ss ih =>
    rw [replaceFirstIn] at h
    rw [List.cons_append, replaceFirstIn]
    cases hs : s.replaceFirst nodeId f with
    | some ws =>
      rw [hs] at h
      cases h
      simp
    | none =>
      rw [hs] at h
      obtain ⟨ws, hws, rfl⟩ := Option.map_eq_some_iff.1 h
      simp [ih hws]

/-- Trees in which nothing is replaced are passed over. -/
theorem replaceFirstIn_append_of_none (h : replaceFirstIn nodeId f ss = none)
    (ts : List OptionTree) :
    replaceFirstIn nodeId f (ss ++ ts) = (replaceFirstIn nodeId f ts).map (ss ++ ·) := by
  induction ss with
  | nil => simp
  | cons s ss ih =>
    rw [replaceFirstIn] at h
    cases hs : s.replaceFirst nodeId f with
    | some ws =>
      rw [hs] at h
      cases h
    | none =>
      rw [hs] at h
      have hrest : replaceFirstIn nodeId f ss = none := Option.map_eq_none_iff.1 h
      rw [List.cons_append, replaceFirstIn, hs, ih hrest]
      simp [Function.comp_def]

end Append

/-- The node in a clear gap is the one that is replaced, and the rest stays as it is. -/
theorem replaceFirstIn_fill {nodeId : Value} {g : Gap} (hclear : g.Clear nodeId)
    {s : OptionTree} (hid : s.id.agrees nodeId = true) (f : OptionTree → List OptionTree)
    (right : List OptionTree) :
    replaceFirstIn nodeId f (g.fill [s] ++ right) = some (g.fill (f s) ++ right) := by
  induction g generalizing right with
  | here =>
    obtain ⟨d, cs⟩ := s
    have htop : d.id.agrees nodeId = true := hid
    simp [Gap.fill, replaceFirstIn, replaceFirst, htop]
  | under d left others g ih =>
    obtain ⟨htop, hleft, hclear⟩ := hclear
    have hbelow : replaceFirstIn nodeId f (left ++ (g.fill [s] ++ others)) =
        some (left ++ (g.fill (f s) ++ others)) := by
      rw [replaceFirstIn_append_of_none (replaceFirstIn_of_absent hleft f), ih hclear,
        Option.map_some]
    simp [Gap.fill, replaceFirstIn, replaceFirst, htop, hbelow]

theorem replaceFirst_eq_in (nodeId : Value) (f : OptionTree → List OptionTree) (t : OptionTree) :
    t.replaceFirst nodeId f = replaceFirstIn nodeId f [t] := by
  cases h : t.replaceFirst nodeId f <;> simp [replaceFirstIn, h]

/-- A search that finds a node ends at a gap that is clear of the id. -/
theorem exists_clear_gap {nodeId : Value} {s t : OptionTree} (h : t.find? nodeId = some s) :
    ∃ g : Gap, g.Clear nodeId ∧ s.id.agrees nodeId = true ∧ g.fill [s] = [t] := by
  rw [find?_eq] at h
  obtain ⟨g, hclear, hfill⟩ := exists_gap h
  exact ⟨g, hclear, List.find?_some (p := fun u : OptionTree => u.id.agrees nodeId) h, hfill⟩

section Clear

variable {nodeId : Value} {g : Gap} {s t : OptionTree} (hclear : g.Clear nodeId)
  (hid : s.id.agrees nodeId = true)
include hclear hid

theorem find?_fill (right : List OptionTree) :
    (preorderAll (g.fill [s] ++ right)).find? (fun u => u.id.agrees nodeId) = some s := by
  induction g generalizing right with
  | here => simp [Gap.fill, preorderAll, preorder_eq_cons, hid]
  | under d left others g ih =>
    obtain ⟨htop, hleft, hclear⟩ := hclear
    have htop' : OptionTree.id (.node d (left ++ g.fill [s] ++ others)) = d.id := rfl
    have hpassed : (preorderAll left).find? (fun u => u.id.agrees nodeId) = none :=
      List.find?_eq_none.2 fun u hu => Bool.eq_false_iff.1 (hleft u hu)
    rw [Gap.fill, List.singleton_append, preorderAll, preorder, List.cons_append, List.find?_cons,
      htop', htop, List.find?_append, List.append_assoc, preorderAll_append, List.find?_append,
      hpassed, Option.none_or, ih hclear, Option.some_or]

/-- What stands in a clear gap of a tree is found. -/
theorem find?_of_gap (hfill : g.fill [s] = [t]) : t.find? nodeId = some s := by
  have hfind := find?_fill hclear hid []
  rwa [List.append_nil, hfill, preorderAll, preorderAll, List.append_nil, ← find?_eq] at hfind

/-- An edit of what stands in a clear gap fills the gap. -/
theorem replaceFirst_of_gap (hfill : g.fill [s] = [t]) (f : OptionTree → List OptionTree) :
    t.replaceFirst nodeId f = some (g.fill (f s)) := by
  have hreplace := replaceFirstIn_fill hclear hid f []
  rwa [List.append_nil, List.append_nil, hfill, ← replaceFirst_eq_in] at hreplace

end Clear

/-- **A search and an edit meet in one gap.** The node that is found stands in a gap of the tree,
and any edit of it fills this gap. -/
theorem exists_gap_of_find? {nodeId : Value} {s t : OptionTree} (h : t.find? nodeId = some s) :
    ∃ g : Gap, g.fill [s] = [t] ∧ ∀ f, t.replaceFirst nodeId f = some (g.fill (f s)) := by
  obtain ⟨g, hclear, hid, hfill⟩ := exists_clear_gap h
  exact ⟨g, hfill, replaceFirst_of_gap hclear hid hfill⟩

theorem replaceFirst_of_find?_none {nodeId : Value} {t : OptionTree} (h : t.find? nodeId = none)
    (f : OptionTree → List OptionTree) : t.replaceFirst nodeId f = none := by
  rw [find?_eq, List.find?_eq_none] at h
  exact replaceFirst_of_absent (fun u hu => Bool.eq_false_iff.2 (h u hu)) f

/-! ### Nodes around a gap -/

/-- What several trees say about their nodes, one tree after the other. -/
def dataAll (ts : List OptionTree) : List Node := (preorderAll ts).map data

@[simp]
theorem dataAll_nil : dataAll [] = [] := rfl

@[simp]
theorem dataAll_append (ss ts : List OptionTree) :
    dataAll (ss ++ ts) = dataAll ss ++ dataAll ts := by
  rw [dataAll, preorderAll_append, List.map_append]
  rfl

theorem dataAll_cons (t : OptionTree) (ts : List OptionTree) :
    dataAll (t :: ts) = dataAll [t] ++ dataAll ts :=
  dataAll_append [t] ts

theorem dataAll_node (d : Node) (cs : List OptionTree) :
    dataAll [.node d cs] = d :: dataAll cs := by
  simp [dataAll, preorderAll, preorder, data]

theorem dataAll_eq_cons (t : OptionTree) : dataAll [t] = t.data :: dataAll t.children := by
  obtain ⟨d, cs⟩ := t
  exact dataAll_node d cs

theorem dataAll_perm {ss ts : List OptionTree} (h : ss.Perm ts) :
    (dataAll ss).Perm (dataAll ts) := by
  rw [dataAll, dataAll, preorderAll_eq_flatMap, preorderAll_eq_flatMap]
  exact (h.flatMap_right preorder).map data

/-- The ids of all nodes of several trees, one tree after the other. -/
def idsAll (ts : List OptionTree) : List Value := (preorderAll ts).map id

theorem idsAll_eq_map (ts : List OptionTree) : idsAll ts = (dataAll ts).map Node.id := by
  rw [idsAll, dataAll, List.map_map]
  rfl

theorem ids_eq_map (t : OptionTree) : t.ids = (preorder t).map id := by
  rw [ids, nodes_eq_preorder]

theorem ids_eq_idsAll (t : OptionTree) : t.ids = idsAll [t] := by
  rw [ids_eq_map, idsAll, preorderAll, preorderAll, List.append_nil]

/-- Among texts the search compares ids by equality. -/
theorem find?_eq_of_texts {t : OptionTree} (htexts : ∀ i ∈ t.ids, ∃ s, i = .text s)
    (nodeId : Value) : t.find? nodeId = (preorder t).find? fun u => decide (u.id = nodeId) := by
  rw [find?_eq]
  refine List.find?_congr fun u hu => ?_
  have hmem : u.id ∈ t.ids := by
    rw [ids_eq_map]
    exact List.mem_map_of_mem hu
  rw [Bool.eq_iff_iff, Value.agrees_iff_of_text (htexts _ hmem), decide_eq_true_iff]

theorem mem_idsAll {i : Value} {ts : List OptionTree} :
    i ∈ idsAll ts ↔ ∃ t ∈ ts, i ∈ t.ids := by
  simp only [ids_eq_idsAll, idsAll, List.mem_map, mem_preorderAll, List.mem_singleton,
    exists_eq_left]
  constructor
  · rintro ⟨u, ⟨t, ht, hu⟩, hi⟩
    exact ⟨t, ht, u, hu, hi⟩
  · rintro ⟨t, ht, u, hu, hi⟩
    exact ⟨u, ⟨t, ht, hu⟩, hi⟩

@[simp]
theorem idsAll_nil : idsAll [] = [] := rfl

theorem idsAll_append (ss ts : List OptionTree) : idsAll (ss ++ ts) = idsAll ss ++ idsAll ts := by
  rw [idsAll, preorderAll_append, List.map_append]
  rfl

theorem idsAll_node (d : Node) (cs : List OptionTree) :
    idsAll [.node d cs] = d.id :: idsAll cs := by
  rw [idsAll_eq_map, dataAll_node, idsAll_eq_map, List.map_cons]

end OptionTree

namespace Gap

/-- What is said about the nodes on both sides of a gap does not depend on what fills it. -/
theorem exists_data (g : Gap) :
    ∃ pre post, ∀ us, dataAll (g.fill us) = pre ++ dataAll us ++ post := by
  induction g with
  | here => exact ⟨[], [], fun us => by simp [fill]⟩
  | under d left right g ih =>
    obtain ⟨pre, post, hdata⟩ := ih
    refine ⟨d :: (dataAll left ++ pre), post ++ dataAll right, fun us => ?_⟩
    simp [fill, dataAll_node, hdata]

/-- The ids on both sides of a gap do not depend on what fills it. -/
theorem exists_ids (g : Gap) :
    ∃ pre post, ∀ us, idsAll (g.fill us) = pre ++ idsAll us ++ post := by
  obtain ⟨pre, post, hdata⟩ := g.exists_data
  refine ⟨pre.map Node.id, post.map Node.id, fun us => ?_⟩
  rw [idsAll_eq_map, hdata, List.map_append, List.map_append, idsAll_eq_map]

/-- With a tree in a gap its ids come between those of the tree without it. -/
theorem exists_ids_fill {g : Gap} {x rest t : OptionTree} (whole : g.fill [x] = [t])
    (without : g.fill [] = [rest]) :
    ∃ pre post, t.ids = pre ++ x.ids ++ post ∧ rest.ids = pre ++ post := by
  obtain ⟨pre, post, hids⟩ := g.exists_ids
  refine ⟨pre, post, ?_, ?_⟩
  · rw [ids_eq_idsAll, ← whole, hids, ids_eq_idsAll]
  · rw [ids_eq_idsAll, ← without, hids, idsAll_nil, List.append_nil]

/-- A tree keeps its top if a node in it gives way to one with the same data. -/
theorem data_fill {g : Gap} {s s' t t' : OptionTree} (hdata : s'.data = s.data)
    (h : g.fill [s] = [t]) (h' : g.fill [s'] = [t']) : t'.data = t.data := by
  cases g with
  | here =>
    rw [← List.singleton_inj.1 h, ← List.singleton_inj.1 h', hdata]
  | under d left right g =>
    rw [← List.singleton_inj.1 h, ← List.singleton_inj.1 h']
    rfl

end Gap

end BranchForm
