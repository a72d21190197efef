import BranchForm.Tree.Codec

/-!
# Editing option trees

An edit answers with a new tree; the old one is a value and stays. Every edit works on the first
node with an id in the order from the top, so repeated ids do no harm.

* `Draft` is what an author edits: a tree, or nothing yet;
* `OptionTree.replaceFirst` replaces the first node with an id by any number of trees; updating,
  removing and inserting are instances of it;
* `Draft.update`, `Draft.remove`, `Draft.insert`, `Draft.toggle` and `Draft.move` are the edits. An
  update or removal of an absent id changes nothing, the others refuse it;
* `Patch` is a set of new field values, `Patch.ofMembers` reads one.
-/

namespace BranchForm

/-- What an author edits: a tree, or nothing yet. -/
abbrev Draft := Option OptionTree

/-- New values for some fields of a node. A new role is not checked before a node is found. -/
structure Patch where
  /-- The new id. -/
  id : Option Value := none
  /-- The new label. -/
  label : Option Value := none
  /-- The stored name of the new role. -/
  kind : Option Value := none
  /-- The new choice of several children together. -/
  multiple : Option Value := none
  /-- The new image. -/
  image : Option Value := none
  /-- The new state of display. -/
  expanded : Option Value := none
  /-- The new children. -/
  children : Option (List OptionTree) := none
  deriving Repr, Inhabited

namespace Patch

/-- The names by which a patch refers to the fields of a node. -/
def fieldNames : List String :=
  ["id", "label", "kind", "allow_multiple", "image_url", "is_expanded", "children"]

/-- Whether a patch sets nothing. -/
def isEmpty (p : Patch) : Bool :=
  p.id.isNone && p.label.isNone && p.kind.isNone && p.multiple.isNone && p.image.isNone &&
    p.expanded.isNone && p.children.isNone

/-- The new children among the members of a patch. -/
def childrenOf (ms : Members) : Except Error (Option (List OptionTree)) :=
  match Members.get? ms "children" with
  | none => .ok none
  | some v => do
    let vs ← v.elements
    let ts ← OptionTree.decodeAll vs
    pure (some ts)

/-- The names that stand for what is patched and not for a field of it. A caller may use them for no
change of his own. -/
def reservedNames : List String := ["tree", "node_id", "patch"]

/-- Reads a patch for a node: the members of a first record with those of a second one over them,
which must not have reserved names. -/
def ofMembers (nodeId : Value) (first second : Members) : Except Error Patch := do
  let firstChildren ← childrenOf first
  let secondChildren ← childrenOf second
  if reservedNames.any fun name => Members.has second name then Value.fail .wrongKind
  let ms := Members.putAll first second
  let unknown := (Members.names ms).filter fun name => !(fieldNames.map Value.text).contains name
  if unknown.isEmpty then
    pure {
      id := Members.get? ms "id"
      label := Members.get? ms "label"
      kind := Members.get? ms "kind"
      multiple := Members.get? ms "allow_multiple"
      image := Members.get? ms "image_url"
      expanded := Members.get? ms "is_expanded"
      children := secondChildren <|> firstChildren }
  else do
    let names ← Value.asTexts (← Value.sorted unknown)
    .error (.unknownNodeFields nodeId names)

/-- The new role, if one is set. -/
def newKind (p : Patch) : Except Error (Option NodeKind) :=
  match p.kind with
  | none => .ok none
  | some v => match NodeKind.ofValue? v with
    | some kind => .ok (some kind)
    | none => Value.fail .badValue

/-- A tree with the new values at its top; the role is given apart, as it has been checked. -/
def apply (p : Patch) (kind : Option NodeKind) : OptionTree → OptionTree
  | .node d cs => .node {
      id := p.id.getD d.id
      label := p.label.getD d.label
      kind := kind.getD d.kind
      multiple := p.multiple.getD d.multiple
      image := p.image.getD d.image
      expanded := p.expanded.getD d.expanded } (p.children.getD cs)

end Patch

namespace OptionTree

mutual

/-- The trees that stand for a tree once its first node with an id is replaced, or none if no node
has the id. -/
def replaceFirst (nodeId : Value) (f : OptionTree → List OptionTree) :
    OptionTree → Option (List OptionTree)
  | .node d cs =>
    if d.id.agrees nodeId then some (f (.node d cs))
    else (replaceFirstIn nodeId f cs).map fun ds => [.node d ds]

/-- The same for a sequence of trees: the first of them that has the id is replaced. -/
def replaceFirstIn (nodeId : Value) (f : OptionTree → List OptionTree) :
    List OptionTree → Option (List OptionTree)
  | [] => none
  | t :: ts => match replaceFirst nodeId f t with
    | some us => some (us ++ ts)
    | none => (replaceFirstIn nodeId f ts).map (t :: ·)

end

/-- The place that a position names among children: none stands for the end, as do the positions
out of range. A position within the range must be a whole number. -/
def placeAmong (position : Value) (count : Nat) : Except Error (Option Nat) :=
  match position.asNumber with
  | .null => .ok none
  | .int n => .ok (if 0 ≤ n ∧ n < count then some n.toNat else none)
  | .float x => if !x.isBelow 0 && x.isBelow count then Value.fail .wrongKind else .ok none
  | _ => Value.fail .wrongKind

/-- Children with one more at a place, or at the end. -/
def place (at? : Option Nat) (new : OptionTree) (cs : List OptionTree) : List OptionTree :=
  match at? with
  | some k => cs.take k ++ new :: cs.drop k
  | none => cs ++ [new]

end OptionTree

namespace Draft

/-- The first subtree with an id. -/
def find? (draft : Draft) (nodeId : Value) : Option OptionTree :=
  draft.bind fun t => t.find? nodeId

/-- The draft with the first node of an id patched. -/
def update (draft : Draft) (nodeId : Value) (p : Patch) : Except Error Draft :=
  match draft with
  | none => .ok none
  | some t =>
    if p.isEmpty then .ok (some t)
    else match t.find? nodeId with
      | none => .ok (some t)
      | some _ => do
        let kind ← p.newKind
        pure (((t.replaceFirst nodeId fun s => [p.apply kind s]).getD [t]).head?)

/-- The draft without the first node of an id and what is below it. -/
def remove (draft : Draft) (nodeId : Value) : Draft :=
  draft.bind fun t => ((t.replaceFirst nodeId fun _ => []).getD [t]).head?

/-- Refuses ids that cannot be compared with those of a tree: they must all be able to name a
member. -/
def checkIds (ids : List Value) : Except Error Unit :=
  if ids.all Value.isKey then .ok () else Value.fail .wrongKind

/-- A tree with another one added to the children of its first node of an id. -/
def attach (t : OptionTree) (parentId : Value) (new : OptionTree) (position : Value) :
    Except Error OptionTree :=
  match t.find? parentId with
  | none => .error (.nodeNotFound parentId .insert)
  | some parent => do
    let at? ← OptionTree.placeAmong position parent.children.length
    match t.replaceFirst parentId fun s =>
        [s.withChildren (OptionTree.place at? new s.children)] with
    | some (u :: _) => pure u
    | _ => .error (.nodeNotFound parentId .insert)

/-- The draft with another one added to the children of the first node of an id. There must be
something in both, and the second must not bring an id the first has. -/
def insert (draft : Draft) (parentId : Value) (new : Draft) (position : Value) :
    Except Error OptionTree :=
  match draft with
  | none => .error (.nodeNotFound parentId .insert)
  | some t => do
    checkIds t.ids
    match new with
    | none => Value.fail .missingOperation
    | some u => do
      checkIds u.ids
      match u.ids.filter fun id => id.within t.ids with
      | [] => attach t parentId u position
      | repeated => do
        let names ← Value.asTexts repeated
        .error (.duplicateIds names parentId)

/-- The draft with the display of the first node of an id turned over. -/
def toggle (draft : Draft) (nodeId : Value) : Except Error Draft :=
  match draft.find? nodeId with
  | none => .ok draft
  | some s => draft.update nodeId { expanded := some (.bool !s.data.expanded.truthy) }

/-- The draft with the first node of an id moved under another node. -/
def move (draft : Draft) (nodeId parentId position : Value) :
    Except Error OptionTree :=
  match draft, draft.find? nodeId with
  | some t, some s =>
    if (t.find? parentId).isNone then .error (.nodeNotFound parentId .move)
    else if s.id.agrees t.id then .error (.rootMoved nodeId)
    else if (s.find? parentId).isSome then .error (.movedIntoItself nodeId parentId)
    else insert (draft.remove nodeId) parentId (some s) position
  | _, _ => .error (.nodeNotFound nodeId .move)

/-- The children of the first node of an id as the editor's grid shows them. -/
def childItems (draft : Draft) (nodeId : Value) : List Members :=
  match draft.find? nodeId with
  | none => []
  | some s => s.children.map fun c =>
    [("id", c.id), ("label", c.label), ("imageUrl", c.data.image),
      ("allowMultiple", c.data.multiple)]

end Draft

end BranchForm
