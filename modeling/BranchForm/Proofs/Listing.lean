import BranchForm.Proofs.Spots
import Mathlib

/-!
# Listing a tree with an agenda

The editor lists a tree without recursion. It keeps an agenda of trees, at first the whole one; in
every round it takes the tree in front and puts that tree's children in front of the others. The
agenda holds pieces from several levels of the tree at once, and what is still to come is what the
pieces are, one after the other, from the top.

* `OptionTree.unfoldFirst` is the agenda after one round, and `OptionTree.walk_unfoldFirst` : a round
  takes the first tree off the list of what is to come, and nothing else;
* `OptionTree.walk_iterate` : so after some rounds the list has come as far, and
  `OptionTree.iterate_eq_nil_iff` : after as many rounds as there are nodes nothing is left;
* `nodes_in_preorder` is the result: the list is the recursive one, and has what stands at each place
  of the tree, once and in lexicographic order.
-/

namespace BranchForm

namespace OptionTree

/-! ### Rounds -/

/-- The agenda after one round: the tree in front is taken, and its children are put in front of the
others, the last child first. -/
def unfoldFirst : List OptionTree → List OptionTree
  | [] => []
  | t :: rest => t.children.reverse.foldl (fun agenda c => c :: agenda) rest

variable {t : OptionTree} {agenda rest : List OptionTree}

/-- The children come to stand in front in their order. -/
theorem unfoldFirst_cons (t : OptionTree) (rest : List OptionTree) :
    unfoldFirst (t :: rest) = t.children ++ rest := by
  simp [unfoldFirst]

/-- What comes next is the tree in front of the agenda. -/
theorem head?_walk (agenda : List OptionTree) : (walk agenda).head? = agenda.head? := by
  rcases agenda with _ | ⟨⟨d, cs⟩, rest⟩
  · rw [walk]
  · rw [walk]
    rfl

/-- A round takes the first tree off the list of what is to come. -/
theorem walk_unfoldFirst (agenda : List OptionTree) : walk (unfoldFirst agenda) = (walk agenda).tail := by
  rcases agenda with _ | ⟨⟨d, cs⟩, rest⟩
  · rw [unfoldFirst, walk]
    rfl
  · rw [unfoldFirst_cons, children, walk.eq_2, List.tail_cons]

/-- After some rounds the list has come as far. -/
theorem walk_iterate (k : Nat) (agenda : List OptionTree) :
    walk (unfoldFirst^[k] agenda) = (walk agenda).drop k := by
  induction k with
  | zero => rfl
  | succ k ih => rw [Function.iterate_succ_apply', walk_unfoldFirst, ih, List.tail_drop]

/-- A round takes the next tree of the list. -/
theorem head?_iterate (k : Nat) (t : OptionTree) : (unfoldFirst^[k] [t]).head? = t.nodes[k]? := by
  rw [← head?_walk, walk_iterate, List.head?_drop, nodes]

mutual

theorem length_preorder (t : OptionTree) : (preorder t).length = t.size := by
  obtain ⟨d, cs⟩ := t
  rw [preorder, List.length_cons, length_preorderAll cs, size, Nat.add_comm]

/-- The list has as many entries as there are nodes. -/
theorem length_preorderAll (ts : List OptionTree) : (preorderAll ts).length = sizeAll ts := by
  match ts with
  | [] => rfl
  | t :: ts =>
    rw [preorderAll, List.length_append, length_preorder t, length_preorderAll ts, sizeAll]

end

/-- The agenda is empty after as many rounds as there are nodes, and not before. -/
theorem iterate_eq_nil_iff (k : Nat) (t : OptionTree) : unfoldFirst^[k] [t] = [] ↔ t.size ≤ k := by
  rw [← List.head?_eq_none_iff, head?_iterate, List.getElem?_eq_none_iff, nodes_eq_preorder,
    length_preorder]

theorem preorder_eq_flatMap (t : OptionTree) :
    preorder t = t :: t.children.flatMap preorder := by
  rw [preorder_eq_cons, preorderAll_eq_flatMap]

end OptionTree

open OptionTree

/-- **The list of the editor is the recursive one.** Listing a tree takes as many rounds as it has
nodes; in each of them the next node of the list is taken, and then nothing is left. The list has the
tree and then, child by child from the left to the right, the lists of the children. It has what
stands at each place of the tree, one entry for one place, in lexicographic order of the places, and
so have the ids. -/
theorem nodes_in_preorder (t : OptionTree) :
    (∀ k, unfoldFirst^[k] [t] = [] ↔ t.size ≤ k) ∧ (∀ k, (unfoldFirst^[k] [t]).head? = t.nodes[k]?) ∧
      t.nodes = preorder t ∧ preorder t = t :: t.children.flatMap preorder ∧
      t.nodes = (spots [] t).map Spot.tree ∧ t.ids = (spots [] t).map (fun s => s.tree.id) ∧
      (spots [] t).Pairwise (fun r s => r.place < s.place) ∧
      ∀ place u, ⟨place, u⟩ ∈ spots [] t ↔ t.subtree? place = some u := by
  have hspots : t.nodes = (spots [] t).map Spot.tree := by
    rw [nodes_eq_preorder, map_tree_spots]
  refine ⟨fun k => iterate_eq_nil_iff k t, fun k => head?_iterate k t, nodes_eq_preorder t,
    preorder_eq_flatMap t, hspots, ?_, spots_sorted [] t, fun place u => ?_⟩
  · rw [ids, hspots, List.map_map]
    rfl
  · simp [mem_spots]

end BranchForm
