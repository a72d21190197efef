import BranchForm.Proofs.Values
import BranchForm.Reopen
import Mathlib.Logic.Relation

/-!
# Option trees and their normal form

The editor lists a tree with an agenda; the list is the recursive one from the top
(`OptionTree.walk_eq_preorderAll`), on which the other proofs work.

A step graph does not keep all that an author sets. `OptionTree.normalRoot` is what is left of a
tree: the shape, the order, the ids and the labels stay, and so do images and the flags of nodes
with children, as far as they count as present. The root's id is not kept at all; it is given anew.

* `OptionTree.Parent` is one move down a tree, and `OptionTree.mem_preorder_iff` : the nodes of a tree
  are those that such moves lead to;
* `OptionTree.idsBelow` : the ids of the nodes below the root;
* `OptionTree.branching` : the nodes with children, which get steps of their own;
* `OptionTree.normal` and `OptionTree.normalRoot` : the normal form of an option and of a whole
  tree;
* `OptionTree.ids_normalRoot` : the normal form has the ids of the tree, under the root's new one.
-/

namespace BranchForm

namespace OptionTree

/-! ### Listing a tree -/

theorem preorderAll_append (ss ts : List OptionTree) :
    preorderAll (ss ++ ts) = preorderAll ss ++ preorderAll ts := by
  induction ss with
  | nil => rfl
  | cons s ss ih => simp [preorderAll, ih]

theorem preorderAll_eq_flatMap (ts : List OptionTree) : preorderAll ts = ts.flatMap preorder := by
  induction ts with
  | nil => rfl
  | cons t ts ih => rw [preorderAll, ih, List.flatMap_cons]

/-- The agenda of an editor's search lists the subtrees from the top. -/
theorem walk_eq_preorderAll (agenda : List OptionTree) : walk agenda = preorderAll agenda := by
  induction agenda using walk.induct with
  | case1 => simp [walk, preorderAll]
  | case2 d cs rest ih =>
    rw [walk, ih, preorderAll_append, preorderAll, preorder, List.cons_append]

theorem nodes_eq_preorder (t : OptionTree) : t.nodes = preorder t := by
  rw [nodes, walk_eq_preorderAll, preorderAll, preorderAll, List.append_nil]

/-- The ids of the nodes below the top, from the top. -/
def idsBelow (t : OptionTree) : List Value := (preorderAll t.children).map id

theorem ids_eq_cons (t : OptionTree) : t.ids = t.id :: t.idsBelow := by
  obtain ⟨d, cs⟩ := t
  simp [ids, nodes_eq_preorder, preorder, idsBelow, children, id, data]

theorem id_mem_ids (t : OptionTree) : t.id ∈ t.ids := by
  rw [ids_eq_cons]
  exact List.mem_cons_self

theorem preorder_eq_cons (t : OptionTree) : preorder t = t :: preorderAll t.children := by
  cases t
  rfl

theorem mem_preorderAll {s : OptionTree} {ts : List OptionTree} :
    s ∈ preorderAll ts ↔ ∃ t ∈ ts, s ∈ preorder t := by
  induction ts with
  | nil => simp [preorderAll]
  | cons t ts ih => simp [preorderAll, ih]

theorem mem_preorderAll_of_mem {t : OptionTree} {ts : List OptionTree} (ht : t ∈ ts) :
    t ∈ preorderAll ts := by
  rw [mem_preorderAll]
  refine ⟨t, ht, ?_⟩
  rw [preorder_eq_cons]
  exact List.mem_cons_self

theorem mem_preorderAll_of_child {t u : OptionTree} {ts : List OptionTree} (ht : t ∈ ts)
    (hu : u ∈ preorderAll t.children) : u ∈ preorderAll ts := by
  rw [mem_preorderAll]
  refine ⟨t, ht, ?_⟩
  rw [preorder_eq_cons]
  exact List.mem_cons_of_mem _ hu

/-- The nodes with children, from the top. -/
def branching (ts : List OptionTree) : List OptionTree :=
  (preorderAll ts).filter fun u => !u.isLeaf

theorem mem_branching {u : OptionTree} {ts : List OptionTree} :
    u ∈ branching ts ↔ u ∈ preorderAll ts ∧ u.children ≠ [] := by
  simp [branching, isLeaf]

theorem branching_append (ts us : List OptionTree) :
    branching (ts ++ us) = branching ts ++ branching us := by
  rw [branching, preorderAll_append, List.filter_append, branching, branching]

theorem branching_node (d : Node) (c : OptionTree) (cs : List OptionTree) :
    branching [.node d (c :: cs)] = .node d (c :: cs) :: branching (c :: cs) := by
  simp [branching, preorderAll, preorder, isLeaf, children]

/-! ### Ways down a tree -/

section Ways

open Relation (TransGen ReflTransGen)

/-- A node stands right below another. -/
def Parent (parent child : OptionTree) : Prop := child ∈ parent.children

variable {t u : OptionTree}

theorem sizeOf_lt_of_parent (h : Parent t u) : sizeOf u < sizeOf t := by
  obtain ⟨d, cs⟩ := t
  have hlt : sizeOf u < sizeOf cs := List.sizeOf_lt_of_mem h
  simp only [node.sizeOf_spec]
  omega

theorem reflTransGen_of_mem_preorder {t u : OptionTree} (h : u ∈ preorder t) :
    ReflTransGen Parent t u := by
  rw [preorder_eq_cons, List.mem_cons, mem_preorderAll] at h
  rcases h with rfl | ⟨c, hc, hu⟩
  · exact .refl
  · exact .head hc (reflTransGen_of_mem_preorder hu)
termination_by sizeOf t
decreasing_by exact sizeOf_lt_of_parent hc

/-- The nodes of a tree are those on the ways down from its root. -/
theorem mem_preorder_iff : u ∈ preorder t ↔ ReflTransGen Parent t u := by
  refine ⟨reflTransGen_of_mem_preorder, fun h => ?_⟩
  induction h using ReflTransGen.head_induction_on with
  | refl =>
    rw [preorder_eq_cons]
    exact List.mem_cons_self
  | head hchild _ ih =>
    rw [preorder_eq_cons]
    exact List.mem_cons_of_mem _ (mem_preorderAll.2 ⟨_, hchild, ih⟩)

mutual

/-- Every node below the root stands below one node of the tree. -/
theorem flatMap_children_preorder (t : OptionTree) :
    ((preorder t).flatMap children).Perm (preorderAll t.children) := by
  match t with
  | .node d cs => exact flatMap_children_preorderAll cs

theorem flatMap_children_preorderAll (ts : List OptionTree) :
    (ts ++ (preorderAll ts).flatMap children).Perm (preorderAll ts) := by
  match ts with
  | [] => exact .nil
  | t :: ts =>
    have hfirst := flatMap_children_preorder t
    have hrest := flatMap_children_preorderAll ts
    rw [preorderAll, List.flatMap_append, preorder_eq_cons t]
    rw [preorder_eq_cons t] at hfirst
    refine .cons t ((List.perm_append_comm_assoc _ _ _).trans ?_)
    exact hfirst.append hrest

end

theorem mem_below_iff : u ∈ preorderAll t.children ↔ TransGen Parent t u := by
  rw [← (flatMap_children_preorder t).mem_iff, List.mem_flatMap, TransGen.tail'_iff]
  exact exists_congr fun p => and_congr_left' mem_preorder_iff

end Ways

/-! ### The normal form -/

mutual

/-- An option as a step graph keeps it. The flag counts above children only, and there a truth value
is kept as it is; an image that does not count as present is none. -/
def normal : OptionTree → OptionTree
  | .node d cs =>
    .node { id := d.id, label := d.label
            multiple := .bool (d.multiple.truthy && !cs.isEmpty)
            image := d.image.orElse .null } (normalAll cs)

/-- Several options as a step graph keeps them. -/
def normalAll : List OptionTree → List OptionTree
  | [] => []
  | t :: ts => normal t :: normalAll ts

end

/-- A tree as a step graph keeps it, with a given id for the root: of the root only the label stays,
and a label that does not count as present becomes the default one. -/
def normalRoot (rootId : Value) : OptionTree → OptionTree
  | .node d cs =>
    .node { id := rootId, label := d.label.orElse defaultRootLabel, kind := .root } (normalAll cs)

mutual

theorem ids_normal (t : OptionTree) : (preorder (normal t)).map id = (preorder t).map id := by
  obtain ⟨d, cs⟩ := t
  simp only [normal, preorder, List.map_cons, ids_normalAll cs]
  rfl

theorem ids_normalAll (ts : List OptionTree) :
    (preorderAll (normalAll ts)).map id = (preorderAll ts).map id := by
  match ts with
  | [] => rfl
  | t :: ts =>
    simp only [normalAll, preorderAll, List.map_append, ids_normal t, ids_normalAll ts]

end

theorem ids_normalRoot (rootId : Value) (t : OptionTree) :
    (normalRoot rootId t).ids = rootId :: t.idsBelow := by
  obtain ⟨d, cs⟩ := t
  rw [ids_eq_cons]
  simp only [normalRoot, idsBelow, children, ids_normalAll]
  rfl

end OptionTree

end BranchForm
