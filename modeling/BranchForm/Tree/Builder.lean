import BranchForm.Tree.Edit

/-!
# Building option trees

A builder adds options one by one, with ids of its own where the caller names none. Every addition
is checked as an edit is.

* `Counter` is the number that ids are counted by, `IdSource` counts ids up behind a common stem;
  `stampedId` makes an id of a stamp;
* `OptionTree.newRoot` and `OptionTree.newOption` make fresh nodes, `OptionTree.newOptions` draws
  their ids;
* `Builder` is a tree under construction; `Builder.add` and `Builder.graft` extend it. An id that
  was drawn stays used although the addition fails.
-/

namespace BranchForm

/-- A number that ids are counted by. -/
inductive Counter where
  /-- A whole number. -/
  | whole (n : Int)
  /-- A number with a point, which grows as far as its digits allow. -/
  | point (x : Binary64)
  deriving DecidableEq, Repr, Inhabited

namespace Counter

/-- The number that a value counts as. -/
def ofValue (v : Value) : Except Error Counter :=
  match v.asNumber with
  | .int n => .ok (.whole n)
  | .float x => .ok (.point x)
  | _ => Value.fail .wrongKind

/-- The number behind another one. -/
def next : Counter → Counter
  | .whole n => .whole (n + 1)
  | .point x => .point (x.plus (.ofInt 1))

/-- The text of a number. -/
def text : Counter → String
  | .whole n => toString n
  | .point x => x.text

end Counter

/-- A counter of ids behind a common stem. -/
structure IdSource where
  /-- What stands in front of the number. -/
  stem : Value := .text "node"
  /-- The number of the next id. -/
  next : Counter := .whole 1
  deriving DecidableEq, Repr, Inhabited

namespace IdSource

/-- A source of ids behind a stem, from a number on. -/
def ofValues (stem start : Value) : Except Error IdSource := do
  let next ← Counter.ofValue start
  pure { stem, next }

/-- The next id and the source after it. -/
def draw (s : IdSource) : String × IdSource :=
  (s!"{s.stem.display}-{s.next.text}", { s with next := s.next.next })

/-- The next ids, as many as asked for. -/
def take (s : IdSource) : Nat → List String
  | 0 => []
  | n + 1 => s.draw.1 :: s.draw.2.take n

/-- The source by its stem. -/
def describe (s : IdSource) : String := s!"CounterIdSource({s.stem.literal})"

end IdSource

/-- An id made of a stamp that no other id bears, behind a stem if there is one. -/
def stampedId (stem : Value) (stamp : String) : String :=
  if stem.truthy then s!"{stem.display}-{stamp}" else stamp

/-- The label of an option that was given none. -/
def newItemLabel : Value := .text "New Item"

/-- What a caller says about a new option. -/
structure NewOption where
  /-- The label. -/
  label : Value := newItemLabel
  /-- The image. -/
  image : Value := .null
  /-- The choice of several children together. -/
  multiple : Value := .bool false
  deriving DecidableEq, Repr, Inhabited

namespace OptionTree

/-- The root of a new form. -/
def newRoot (id label : Value) : OptionTree := .node { id, label, kind := .root } []

/-- A new option without children. -/
def newOption (id : Value) (o : NewOption) : OptionTree :=
  .node { id, label := o.label, multiple := o.multiple, image := o.image } []

/-- A root with new options below it, their ids drawn from one source. -/
def newOptions (s : IdSource) : List NewOption → List OptionTree
  | [] => []
  | o :: os => newOption s.draw.1 o :: newOptions s.draw.2 os

end OptionTree

/-- A tree under construction. -/
structure Builder where
  /-- The tree so far. -/
  tree : OptionTree
  /-- The source of ids. -/
  ids : IdSource := {}
  /-- The id added last, the empty value if there is none. -/
  lastId : Value := .null
  deriving Repr, Inhabited

namespace Builder

/-- A builder with a fresh root, whose id is drawn if none is given. -/
def start (label : Value) (ids : IdSource) (rootId : Value) : Builder :=
  match rootId with
  | .null => { tree := .newRoot ids.draw.1 label, ids := ids.draw.2 }
  | id => { tree := .newRoot id label, ids }

/-- A builder that goes on with a draft, in which there must be something. -/
def ofDraft (draft : Draft) (ids : IdSource) : Except Error Builder :=
  match draft with
  | some tree => .ok { tree, ids }
  | none => Value.fail .missingOperation

/-- The builder with a tree under a parent, the root unless one is given. -/
def attach (b : Builder) (new : Draft) (parent position : Value) : Except Error Builder := do
  let tree ← Draft.insert (some b.tree) (parent.orElse b.tree.id) new position
  pure { b with tree, lastId := (new.map OptionTree.id).getD .null }

/-- The builder after an attempt, with the error if it failed. A failed attempt keeps what it took
from the source of ids. -/
def settle (b : Builder) (attempt : Except Error Builder) : Builder × Except Error Unit :=
  match attempt with
  | .ok b' => (b', .ok ())
  | .error e => (b, .error e)

/-- Adds an option under a parent. -/
def add (b : Builder) (o : NewOption) (parent optionId position : Value) :
    Builder × Except Error Unit :=
  if optionId.truthy then b.settle (b.attach (some (.newOption optionId o)) parent position)
  else
    let drawn := { b with ids := b.ids.draw.2 }
    drawn.settle (drawn.attach (some (.newOption b.ids.draw.1 o)) parent position)

/-- Adds a whole tree under a parent. -/
def graft (b : Builder) (new : Draft) (parent : Value) : Builder × Except Error Unit :=
  b.settle (b.attach new parent .null)

end Builder

end BranchForm
