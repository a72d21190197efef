import BranchForm.Proofs.Trees
import Mathlib

/-!
# Places in a tree

A tree may stand in another one several times, so nodes are told apart by where they stand: by the
numbers of the children on the way down.

* `Spot` is a node together with its place, and `OptionTree.subtree?` is what stands at a place;
* `spots` lists a tree from the top, a node before its children; `map_tree_spots` : without the
  places this is the list of the editor;
* `mem_spots` : the list has what stands at any place, and `spots_sorted` : the places come in
  lexicographic order, so that each is there once.
-/

namespace BranchForm

/-- A node within a tree: the numbers of the children on the way down, and what stands there. -/
structure Spot where
  /-- The numbers of the children on the way down. -/
  place : List Nat
  /-- The subtree at the place. -/
  tree : OptionTree
  deriving DecidableEq

mutual

/-- The nodes of a tree at a place, a node before its children. -/
def spots (place : List Nat) : OptionTree → List Spot
  | .node d cs => ⟨place, .node d cs⟩ :: spotsAll place 0 cs

/-- The nodes of a row of siblings and below them, a node before its children. -/
def spotsAll (place : List Nat) (i : Nat) : List OptionTree → List Spot
  | [] => []
  | t :: ts => spots (place ++ [i]) t ++ spotsAll place (i + 1) ts

end

mutual

/-- Places are all that is added to the list of the editor. -/
theorem map_tree_spots (place : List Nat) (t : OptionTree) :
    (spots place t).map Spot.tree = t.preorder := by
  obtain ⟨d, cs⟩ := t
  rw [spots, List.map_cons, map_tree_spotsAll place 0 cs, OptionTree.preorder]

theorem map_tree_spotsAll (place : List Nat) (i : Nat) (ts : List OptionTree) :
    (spotsAll place i ts).map Spot.tree = OptionTree.preorderAll ts := by
  match ts with
  | [] => rfl
  | t :: ts =>
    rw [spotsAll, List.map_append, map_tree_spots _ t, map_tree_spotsAll place (i + 1) ts,
      OptionTree.preorderAll]

end

/-! ### What stands at a place -/

/-- The subtree at a place. -/
def OptionTree.subtree? (t : OptionTree) : List Nat → Option OptionTree
  | [] => some t
  | i :: way => t.children[i]?.bind fun c => c.subtree? way

namespace OptionTree

variable {t u : OptionTree} {i : Nat} {way : List Nat}

@[simp]
theorem subtree?_nil (t : OptionTree) : t.subtree? [] = some t := rfl

theorem subtree?_cons_eq_some :
    t.subtree? (i :: way) = some u ↔ ∃ c, t.children[i]? = some c ∧ c.subtree? way = some u :=
  Option.bind_eq_some_iff

end OptionTree

mutual

/-- The list of a tree has what stands at any place below the top, and nothing else. -/
theorem mem_spots {place : List Nat} {t : OptionTree} {s : Spot} :
    s ∈ spots place t ↔ ∃ way, s.place = place ++ way ∧ t.subtree? way = some s.tree := by
  obtain ⟨d, cs⟩ := t
  obtain ⟨here, u⟩ := s
  rw [spots, List.mem_cons, mem_spotsAll]
  constructor
  · rintro (heq | ⟨j, way, c, hc, hplace, hu⟩)
    · cases heq
      exact ⟨[], (List.append_nil _).symm, rfl⟩
    · have hj : (OptionTree.node d cs).children[0 + j]? = some c := by rwa [Nat.zero_add]
      exact ⟨(0 + j) :: way, hplace, OptionTree.subtree?_cons_eq_some.2 ⟨c, hj, hu⟩⟩
  · rintro ⟨_ | ⟨i, way⟩, rfl, hu⟩
    · obtain rfl := Option.some.inj hu
      exact .inl (by rw [List.append_nil])
    · obtain ⟨c, hc, hu⟩ := OptionTree.subtree?_cons_eq_some.1 hu
      exact .inr ⟨i, way, c, hc, by rw [Nat.zero_add], hu⟩

/-- The list of a row of siblings has what stands at any place below them. -/
theorem mem_spotsAll {place : List Nat} {i : Nat} {ts : List OptionTree} {s : Spot} :
    s ∈ spotsAll place i ts ↔ ∃ j way c, ts[j]? = some c ∧ s.place = place ++ (i + j) :: way ∧
      c.subtree? way = some s.tree := by
  match ts with
  | [] => simp [spotsAll]
  | t :: ts =>
    rw [spotsAll, List.mem_append, mem_spots, mem_spotsAll]
    constructor
    · rintro (⟨way, hplace, hu⟩ | ⟨j, way, c, hc, hplace, hu⟩)
      · exact ⟨0, way, t, rfl, by simpa using hplace, hu⟩
      · exact ⟨j + 1, way, c, hc, by rw [hplace, Nat.add_right_comm, Nat.add_assoc], hu⟩
    · rintro ⟨_ | j, way, c, hc, hplace, hu⟩
      · obtain rfl := Option.some.inj hc
        exact .inl ⟨way, by simpa using hplace, hu⟩
      · exact .inr ⟨j, way, c, hc, by rw [hplace, Nat.add_right_comm, Nat.add_assoc], hu⟩

end

theorem OptionTree.mem_preorder_iff_subtree? {t u : OptionTree} :
    u ∈ t.preorder ↔ ∃ place, t.subtree? place = some u := by
  simp only [← map_tree_spots [] t, List.mem_map, mem_spots, List.nil_append]
  constructor
  · rintro ⟨s, ⟨way, -, hs⟩, rfl⟩
    exact ⟨way, hs⟩
  · rintro ⟨place, hu⟩
    exact ⟨⟨place, u⟩, ⟨place, rfl, hu⟩, rfl⟩

/-! ### The order of places -/

mutual

/-- From the top the places come in lexicographic order. -/
theorem spots_sorted (place : List Nat) (t : OptionTree) :
    (spots place t).Pairwise fun r s => r.place < s.place := by
  obtain ⟨d, cs⟩ := t
  rw [spots, List.pairwise_cons]
  refine ⟨fun s hs => ?_, spotsAll_sorted place 0 cs⟩
  -- a place below another one goes on from it
  obtain ⟨j, way, -, -, hplace, -⟩ := mem_spotsAll.1 hs
  have hlonger : place ++ [] < place ++ (0 + j) :: way := List.append_left_lt (List.nil_lt_cons _ _)
  rwa [List.append_nil, ← hplace] at hlonger

theorem spotsAll_sorted (place : List Nat) (i : Nat) (ts : List OptionTree) :
    (spotsAll place i ts).Pairwise fun r s => r.place < s.place := by
  match ts with
  | [] => exact .nil
  | t :: ts =>
    rw [spotsAll, List.pairwise_append]
    refine ⟨spots_sorted _ t, spotsAll_sorted place (i + 1) ts, fun r hr s hs => ?_⟩
    -- what is below one child comes before what is below the next ones
    obtain ⟨way, hplace, -⟩ := mem_spots.1 hr
    obtain ⟨j, way', -, -, hplace', -⟩ := mem_spotsAll.1 hs
    rw [hplace, hplace', List.append_assoc]
    exact List.append_left_lt (List.cons_lt_cons_iff.2 (.inl (by omega)))

end

/-- No node is listed twice. -/
theorem nodup_spotsAll (place : List Nat) (i : Nat) (ts : List OptionTree) :
    (spotsAll place i ts).Nodup :=
  (spotsAll_sorted place i ts).imp fun hlt heq => absurd (heq ▸ hlt) (List.lt_irrefl _)

end BranchForm
