import BranchForm.Proofs.Gap
import BranchForm.Tree.Path
import Mathlib

/-!
# The way down to a gap

A gap leaves of a tree the nodes above it and the trees beside the way down. The nodes above are the
path that a search from the root reports, which carries the way to each tree on its stack.

* `Gap.above` are the trees above a gap and `Gap.beside` those beside the way down;
  `Gap.preorderAll_fill_perm` : with what fills the gap these are all the nodes there are;
* `Gap.beneath` is the gap between two children of a node that stands in a gap;
* `OptionTree.searchPath_append` : trees without the id are passed over, and
  `OptionTree.searchPath_fill` : what stands in a clear gap is found on the way down to it;
* `Draft.path_of_gap` : so the path to a node leads through the trees above its gap.
-/

namespace BranchForm

open OptionTree

namespace Gap

/-- The trees above a gap that some trees fill, from the top. -/
def above : Gap → List OptionTree → List OptionTree
  | here, _ => []
  | under d left right g, us => .node d (left ++ g.fill us ++ right) :: g.above us

/-- The trees beside the way down to a gap, from the left to the right. -/
def beside : Gap → List OptionTree
  | here => []
  | under _ left right g => left ++ g.beside ++ right

/-- The gap between some children of a node that stands in a gap. -/
def beneath (d : Node) (left right : List OptionTree) : Gap → Gap
  | here => under d left right here
  | under e before after g => under e before after (g.beneath d left right)

variable (g : Gap) (d : Node) (left right us : List OptionTree)

@[simp]
theorem fill_beneath :
    (g.beneath d left right).fill us = g.fill [.node d (left ++ us ++ right)] := by
  induction g with
  | here => rfl
  | under e before after g ih => simp [beneath, fill, ih]

@[simp]
theorem above_beneath :
    (g.beneath d left right).above us =
      g.above [.node d (left ++ us ++ right)] ++ [.node d (left ++ us ++ right)] := by
  induction g with
  | here => rfl
  | under e before after g ih => simp [beneath, above, ih]

/-- What fills a gap does not change what the nodes above it say. -/
theorem map_data_above (ws : List OptionTree) :
    (g.above us).map data = (g.above ws).map data := by
  induction g with
  | here => rfl
  | under e before after g ih => simp [above, ih, data]

/-- The nodes of a tree are those above a gap, those in it and those beside the way down. -/
theorem preorderAll_fill_perm :
    (preorderAll (g.fill us)).Perm
      (g.above us ++ (preorderAll us ++ preorderAll g.beside)) := by
  induction g with
  | here => simp [fill, above, beside, preorderAll]
  | under e before after g ih =>
    rw [List.perm_iff_count] at ih ⊢
    intro u
    have hcount := ih u
    simp only [fill, above, beside, preorderAll, preorder, preorderAll_append, List.append_nil,
      List.cons_append, List.count_cons, List.count_append] at hcount ⊢
    omega

/-- The nodes beside the way down keep their order. -/
theorem preorderAll_beside_sublist : (preorderAll g.beside).Sublist (preorderAll (g.fill us)) := by
  induction g with
  | here => exact List.nil_sublist _
  | under e before after g ih =>
    simp only [fill, beside, preorderAll, preorder, preorderAll_append, List.append_nil]
    exact (((List.Sublist.refl _).append ih).append (.refl _)).cons _

end Gap

/-! ### Searching for a path -/

namespace OptionTree

/-- Trees without the id are passed over. -/
theorem searchPath_append {nodeId : Value} {stack : List (OptionTree × List OptionTree)}
    (h : ∀ u ∈ preorderAll (stack.map Prod.fst), u.id.agrees nodeId = false)
    (rest : List (OptionTree × List OptionTree)) :
    searchPath nodeId (stack ++ rest) = searchPath nodeId rest := by
  induction stack using searchPath.induct nodeId with
  | case1 => rfl
  | case2 d cs path stack hid =>
    have htop := h (.node d cs) (by simp [preorderAll, preorder])
    exact absurd hid (Bool.eq_false_iff.1 htop)
  | case3 d cs path stack hid ih =>
    rw [List.cons_append, searchPath, if_neg hid, ← List.append_assoc]
    simp only [List.map_subtype, List.unattach_attach] at ih
    refine ih fun u hu => h u ?_
    have hstack : ((cs.map fun c => (c, path ++ [c])) ++ stack).map Prod.fst =
        cs ++ stack.map Prod.fst := by
      simp [Function.comp_def]
    rw [hstack, preorderAll_append] at hu
    simp only [List.map_cons, preorderAll, preorder, List.cons_append]
    exact List.mem_cons_of_mem _ hu

/-- What stands in a clear gap is found, on the way down through the trees above. -/
theorem searchPath_fill {nodeId : Value} {g : Gap} {s t : OptionTree} (hclear : g.Clear nodeId)
    (hid : s.id.agrees nodeId = true) (hfill : g.fill [s] = [t]) (before : List OptionTree)
    (rest : List (OptionTree × List OptionTree)) :
    searchPath nodeId ((t, before ++ [t]) :: rest) = before ++ (g.above [s] ++ [s]) := by
  induction g generalizing t before rest with
  | here =>
    obtain rfl : s = t := List.singleton_inj.1 hfill
    obtain ⟨d, cs⟩ := s
    have htop : d.id.agrees nodeId = true := hid
    rw [searchPath, if_pos htop]
    rfl
  | under d left right g ih =>
    obtain ⟨htop, hleft, hclear⟩ := hclear
    obtain ⟨u, hu⟩ := g.exists_fill s
    obtain rfl : .node d (left ++ g.fill [s] ++ right) = t := List.singleton_inj.1 hfill
    -- the children on the left are passed over, and the search goes on in the one with the gap
    have hpassed : ∀ v ∈ preorderAll ((left.map fun c => (c, before ++
        [.node d (left ++ g.fill [s] ++ right)] ++ [c])).map Prod.fst),
        v.id.agrees nodeId = false := by
      simpa [Function.comp_def] using hleft
    have hbelow := ih hclear hu (before ++ [.node d (left ++ g.fill [s] ++ right)])
    rw [searchPath, if_neg (Bool.eq_false_iff.1 htop), Gap.above]
    rw [hu] at hpassed hbelow ⊢
    simp only [List.append_assoc, List.map_append, List.cons_append, List.nil_append,
      List.map_cons] at hpassed hbelow ⊢
    rw [searchPath_append hpassed, hbelow]

end OptionTree

/-- The path to what stands in a clear gap leads through the trees above it. -/
theorem Draft.path_of_gap {nodeId : Value} {g : Gap} {s t : OptionTree} (hclear : g.Clear nodeId)
    (hid : s.id.agrees nodeId = true) (hfill : g.fill [s] = [t]) :
    Draft.path (some t) nodeId = g.above [s] ++ [s] :=
  OptionTree.searchPath_fill hclear hid hfill [] []

end BranchForm
