import BranchForm.Tree.Basic

/-!
# Stored option trees

The editor keeps a tree as nested records. Reading one accepts the older member `type` for `kind`
and fills in what is missing; only an id is required.

* `OptionTree.encode` writes the record of a tree;
* `OptionTree.decode` reads one; `Node.decode` is its part about a single node.
-/

namespace BranchForm

/-- The members of a node's record in front of its children. -/
def Node.encode (d : Node) : Members :=
  ([("id", d.id), ("label", d.label), ("kind", .text d.kind.name),
    ("allowMultiple", d.multiple), ("isExpanded", d.expanded)] : Members) ++
  (if d.image = .null then [] else ([("imageUrl", d.image)] : Members))

/-- Reads what a record says about its node. Flags become truth values, an id becomes its text, and
an empty image counts as none. -/
def Node.decode (ms : Members) : Except Error Node := do
  match Members.get? ms "id" with
  | none => do
    let names ← Value.sorted (Members.names ms)
    .error (.nodeWithoutId names)
  | some rawId =>
    let rawKind := Members.getD ms "kind" (Members.getD ms "type" (.text NodeKind.option.name))
    match NodeKind.ofValue? rawKind with
    | none => .error (.unknownNodeKind rawId rawKind)
    | some kind => pure {
        id := .text rawId.display
        label := Members.getD ms "label" (.text "")
        kind
        multiple := .bool (Members.getD ms "allowMultiple" (.bool false)).truthy
        image := (Members.getOrNull ms "imageUrl").orElse .null
        expanded := .bool (Members.getD ms "isExpanded" (.bool true)).truthy }

namespace OptionTree

mutual

/-- The record of a tree. -/
def encode : OptionTree → Value
  | .node d cs => .record (d.encode ++ ([("children", .list (encodeAll cs))] : Members))

/-- The records of several trees. -/
def encodeAll : List OptionTree → List Value
  | [] => []
  | t :: ts => encode t :: encodeAll ts

end

/-- Why a value that is no record is not a node: its id is missing where one could be looked for. -/
def rejection (v : Value) : Error :=
  match v.contains "id" with
  | .error e => e
  | .ok true => .fault .missingOperation
  | .ok false => match v.elements.bind Value.sorted with
    | .ok keys => .nodeWithoutId keys
    | .error e => e

mutual

/-- Reads a tree. -/
def decode : Value → Except Error OptionTree
  | .record ms => do
    let node ← Node.decode ms
    let children ← decodeChildren ms
    pure (.node node children)
  | v => .error (rejection v)

/-- Reads the children among the members of a record. -/
def decodeChildren : List (Value × Value) → Except Error (List OptionTree)
  | [] => .ok []
  | (name, v) :: ms => if name = .text "children" then decodeElements v else decodeChildren ms

/-- Reads the trees a value is made of, none from a value that does not count as present. -/
def decodeElements : Value → Except Error (List OptionTree)
  | .list vs => decodeAll vs
  | .text s => match s.toList with
    | [] => .ok []
    | c :: _ => .error (rejection (.text (String.singleton c)))
  | .record [] => .ok []
  | .record ((name, _) :: _) => .error (rejection name)
  | v => if v.truthy then Value.fail .wrongKind else .ok []

/-- Reads several trees. -/
def decodeAll : List Value → Except Error (List OptionTree)
  | [] => .ok []
  | v :: vs => do
    let t ← decode v
    let ts ← decodeAll vs
    pure (t :: ts)

end

end OptionTree

end BranchForm
