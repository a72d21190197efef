import BranchForm.Value.Access

/-!
# Option trees

An author draws a form as a tree: the root names the form, and below it stand options and their
sub-options. Ownership is nesting; a node knows its children and nothing above it.

* `Node` is what the tree says about one place, `OptionTree` a node with its children in order;
* `OptionTree.preorder` lists the subtrees from the top, a node before its children;
* `OptionTree.walk` lists the subtrees of an agenda by taking its first tree and putting that tree's
  children in its place; `OptionTree.ids` are the ids met on the way;
* `OptionTree.outline` is the tree by its labels in round brackets.
-/

namespace BranchForm

/-- The role of a node. -/
inductive NodeKind where
  /-- The node that names the form. -/
  | root
  /-- An option of the form. -/
  | option
  deriving DecidableEq, Repr, Inhabited

namespace NodeKind

/-- The stored name of a role. -/
def name : NodeKind → String
  | .root => "root"
  | .option => "option"

/-- The role of a stored name. -/
def ofName? : String → Option NodeKind
  | "root" => some .root
  | "option" => some .option
  | _ => none

/-- The role of a value, which must be a stored name. -/
def ofValue? : Value → Option NodeKind
  | .text s => ofName? s
  | _ => none

end NodeKind

/-- One place of an option tree. What an author sets without a check is a value. -/
structure Node where
  /-- Names the node within its tree. -/
  id : Value
  /-- The text shown; the label of the root names the form. -/
  label : Value
  /-- The role of the node. -/
  kind : NodeKind := .option
  /-- Whether several of the children may be chosen together. -/
  multiple : Value := .bool false
  /-- The image shown with the option, if there is one. -/
  image : Value := .null
  /-- Whether the editor shows the children; compiled forms do not depend on it. -/
  expanded : Value := .bool true
  deriving DecidableEq, Repr, Inhabited

/-- A node with its children in order. -/
inductive OptionTree where
  /-- A node above its children. -/
  | node (data : Node) (children : List OptionTree)
  deriving Repr, Inhabited

namespace OptionTree

/-- The node at the top. -/
def data : OptionTree → Node
  | .node d _ => d

/-- The trees below the top. -/
def children : OptionTree → List OptionTree
  | .node _ cs => cs

/-- The id of the node at the top. -/
def id (t : OptionTree) : Value := t.data.id

/-- The label of the node at the top. -/
def label (t : OptionTree) : Value := t.data.label

/-- Whether nothing stands below the top. -/
def isLeaf (t : OptionTree) : Bool := t.children.isEmpty

/-- The tree with other children. -/
def withChildren (t : OptionTree) (cs : List OptionTree) : OptionTree := .node t.data cs

mutual

/-- Decides whether two trees are the same. -/
def decEq : (s t : OptionTree) → Decidable (s = t)
  | .node d cs, .node e ds => match decEqAll cs ds with
    | isTrue h =>
      if hd : d = e then isTrue (by rw [hd, h]) else isFalse (by simp [hd])
    | isFalse h => isFalse (by simp [h])

/-- Decides whether two sequences of trees are the same. -/
def decEqAll : (ss ts : List OptionTree) → Decidable (ss = ts)
  | [], [] => isTrue rfl
  | [], _ :: _ => isFalse nofun
  | _ :: _, [] => isFalse nofun
  | s :: ss, t :: ts => match decEq s t, decEqAll ss ts with
    | isTrue h, isTrue hs => isTrue (by rw [h, hs])
    | isFalse h, _ => isFalse (by simp [h])
    | _, isFalse hs => isFalse (by simp [hs])

end

instance : DecidableEq OptionTree := decEq

mutual

/-- The number of nodes. -/
def size : OptionTree → Nat
  | .node _ cs => 1 + sizeAll cs

/-- The number of nodes of several trees. -/
def sizeAll : List OptionTree → Nat
  | [] => 0
  | t :: ts => size t + sizeAll ts

end

theorem sizeAll_append (ss ts : List OptionTree) :
    sizeAll (ss ++ ts) = sizeAll ss + sizeAll ts := by
  induction ss with
  | nil => simp [sizeAll]
  | cons s ss ih => simp [sizeAll, ih, Nat.add_assoc]

mutual

/-- The subtrees, a node before its children and the children in order. -/
def preorder : OptionTree → List OptionTree
  | .node d cs => .node d cs :: preorderAll cs

/-- The subtrees of several trees, one tree after the other. -/
def preorderAll : List OptionTree → List OptionTree
  | [] => []
  | t :: ts => preorder t ++ preorderAll ts

end

/-- The subtrees of an agenda: its first tree, and then the agenda with that tree's children in its
place. -/
def walk : List OptionTree → List OptionTree
  | [] => []
  | .node d cs :: rest => .node d cs :: walk (cs ++ rest)
termination_by agenda => sizeAll agenda
decreasing_by rw [sizeAll_append, sizeAll, size]; omega

/-- The subtrees in the order of an editor's search. -/
def nodes (t : OptionTree) : List OptionTree := walk [t]

/-- The ids of all nodes, in the order of an editor's search. -/
def ids (t : OptionTree) : List Value := t.nodes.map id

/-- The first subtree with an id, in the order of an editor's search. -/
def find? (t : OptionTree) (nodeId : Value) : Option OptionTree :=
  t.nodes.find? fun s => s.id.agrees nodeId

/-! ### Outlines -/

/-- A label inside an outline, which must be a text. -/
def outlineLabel : Value → Except Error String
  | .text s => .ok s
  | _ => Value.fail .wrongKind

/-- How the nodes of an outline are set apart. -/
structure OutlineStyle where
  /-- What stands in front of a child, once for each level on lines of their own. -/
  delimiter : String := " "
  /-- Whether every child stands on a line of its own. -/
  multiline : Bool := false
  deriving DecidableEq, Repr, Inhabited

/-- What stands in front of a child at a level. -/
def OutlineStyle.gap (style : OutlineStyle) (level : Nat) : String :=
  if style.multiline then "\n" ++ String.join (List.replicate level style.delimiter)
  else style.delimiter

mutual

/-- The outline of a tree whose children stand at the level below `level`. -/
def outlineAt (style : OutlineStyle) (level : Nat) : OptionTree → Except Error String
  | .node d [] => outlineLabel d.label
  | .node d (c :: cs) => do
    let label ← outlineLabel d.label
    let first ← outlineAt style (level + 1) c
    let others ← outlinesAt style (level + 1) cs
    pure ("(" ++ label ++ style.gap (level + 1) ++ first ++ others ++ ")")

/-- The outlines of further children, each behind its gap. -/
def outlinesAt (style : OutlineStyle) (level : Nat) : List OptionTree → Except Error String
  | [] => .ok ""
  | c :: cs => do
    let first ← outlineAt style level c
    let others ← outlinesAt style level cs
    pure (style.gap level ++ first ++ others)

end

/-- The tree by its labels, with a text in front of every child. A tree without children is its
label. -/
def outline (delimiter : Value) (multiline : Bool) (t : OptionTree) : Except Error Value :=
  if t.isLeaf then .ok t.label
  else match delimiter with
    | .text delimiter => do
      let s ← outlineAt { delimiter, multiline } 0 t
      pure (.text s)
    | _ => Value.fail .wrongKind

end OptionTree

end BranchForm
