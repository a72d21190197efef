import BranchForm.Tree.Edit

/-!
# Paths in option trees

Ancestry is found by searching from the root, since a node knows nothing above it.

* `OptionTree.searchPath` searches a stack of trees, each with its path from the root;
* `Draft.path` is the path to the first node with an id, `Draft.parent?` and `Draft.depth?` read it;
* `Draft.breadcrumbs` is the trail shown above the editor's grid.
-/

namespace BranchForm

/-- One entry of the trail above the editor's grid. -/
structure Breadcrumb where
  /-- The id of the node. -/
  id : Value
  /-- The label of the node. -/
  label : Value
  /-- Whether the node is the one in view. -/
  isActive : Bool
  deriving DecidableEq, Repr, Inhabited

/-- The record of a trail entry. -/
def Breadcrumb.encode (b : Breadcrumb) : Value :=
  .record [("id", b.id), ("label", b.label), ("isActive", .bool b.isActive)]

namespace OptionTree

/-- The path to the first tree with an id among the trees of a stack, each of which carries its own
path. A tree that is not the one gives way to its children. -/
def searchPath (nodeId : Value) : List (OptionTree × List OptionTree) → List OptionTree
  | [] => []
  | (.node d cs, path) :: rest =>
    if d.id.agrees nodeId then path
    else searchPath nodeId (cs.map (fun c => (c, path ++ [c])) ++ rest)
termination_by stack => sizeAll (stack.map (·.1))
decreasing_by
  simp only [List.map_append, List.map_map, List.map_cons, sizeAll_append, sizeAll, size,
    Function.comp_def, List.attach_map_subtype_val]
  omega

end OptionTree

namespace Draft

/-- The nodes from the root to the first node with an id, none if no node has it. -/
def path (draft : Draft) (nodeId : Value) : List OptionTree :=
  match draft with
  | none => []
  | some t => OptionTree.searchPath nodeId [(t, [t])]

/-- The trail of a path, whose last node is in view. -/
def trail : List OptionTree → List Breadcrumb
  | [] => []
  | [t] => [⟨t.id, t.label, true⟩]
  | t :: ts => ⟨t.id, t.label, false⟩ :: trail ts

/-- The trail to a node, empty if none is named. -/
def breadcrumbs (draft : Draft) (nodeId : Value) : List Breadcrumb :=
  match nodeId with
  | .null => []
  | nodeId => trail (draft.path nodeId)

/-- The node above the first node with an id. -/
def parent? (draft : Draft) (nodeId : Value) : Option OptionTree :=
  (draft.path nodeId).dropLast.getLast?

/-- The number of steps from the root to the first node with an id. -/
def depth? (draft : Draft) (nodeId : Value) : Option Nat :=
  match draft.path nodeId with
  | [] => none
  | path => some (path.length - 1)

end Draft

end BranchForm
