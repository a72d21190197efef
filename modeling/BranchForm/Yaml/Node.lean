import BranchForm.Value.Access
import BranchForm.Yaml.Plain
import BranchForm.Yaml.Token

/-!
# Nodes of a YAML document

The tokens of a document form a tree of texts, lists and records. Names and values may be missing,
and stand for the empty text without quotes then. A node may be named, and be referred to behind its
end.

* `Yaml.Node` is a tree; `Yaml.readNode` reads the one at the front of tokens, together with the
  functions for the elements and members inside;
* `Yaml.readDocument` reads the only document of a whole text;
* `Yaml.Node.members` are the members of a record, those taken over from other records in front;
* `Yaml.Node.examine` looks for a node that stands for no value, and `Yaml.Node.value` is the value
  that a node stands for.
-/

namespace BranchForm.Yaml

/-- A tree of texts, lists and records. The type is present if it was written. -/
inductive Node where
  /-- A text, and whether what it stands for depends on its form. -/
  | scalar (text : List Char) (plain : Bool) (type : Option String)
  /-- A list. -/
  | list (items : List Node) (type : Option String)
  /-- A record with its names and values. -/
  | record (pairs : List (Node × Node)) (type : Option String)
  /-- A reference to a node that it is a part of. -/
  | cycle
  deriving Repr, Inhabited

/-- The named nodes, each at its end and at first as a reference to itself. -/
abbrev Anchors := List (String × Node)

/-- What is left of tokens after a node: fewer than before. -/
abbrev Fewer (ts : List Token) := { r : List Token // r.length < ts.length }

/-- What is left of tokens after a node that may be missing. -/
abbrev NoMore (ts : List Token) := { r : List Token // r.length ≤ ts.length }

/-! ### Names and types in front of a node -/

/-- What is written in front of a node. -/
structure Properties where
  /-- The name of the node. -/
  anchor : Option String := none
  /-- The handle and the rest of the name of its type. -/
  tag : Option (String × String) := none
  deriving DecidableEq, Repr

namespace Properties

/-- Whether anything is written in front of the node. -/
def isEmpty (p : Properties) : Bool := p.anchor.isNone && p.tag.isNone

/-- The properties at the front of tokens: a name and a type in either order. -/
def read (ts : List Token) : Properties × NoMore ts :=
  match ts with
  | .anchor a :: .tag h s :: r =>
    (⟨some a, some (h, s)⟩, ⟨r, by simp only [List.length_cons]; omega⟩)
  | .tag h s :: .anchor a :: r =>
    (⟨some a, some (h, s)⟩, ⟨r, by simp only [List.length_cons]; omega⟩)
  | .anchor a :: r => (⟨some a, none⟩, ⟨r, by simp⟩)
  | .tag h s :: r => (⟨none, some (h, s)⟩, ⟨r, by simp⟩)
  | ts => ({}, ⟨ts, Nat.le_refl _⟩)

theorem length_lt_of_read {ts : List Token} (h : (read ts).1.isEmpty = false) :
    (read ts).2.val.length < ts.length := by
  revert h
  unfold read
  split
  case h_5 => simp [isEmpty]
  all_goals intro _; simp only [List.length_cons]; omega

/-- The full name of the type, none if the form of the node decides. A type must have a known
handle. -/
def type? (p : Properties) : Except Fault (Option String) :=
  match p.tag with
  | none => .ok none
  | some ("", "!") => .ok none
  | some ("", suffix) => .ok (some suffix)
  | some ("!", suffix) => .ok (some ("!" ++ suffix))
  | some ("!!", suffix) => .ok (some ("tag:yaml.org,2002:" ++ suffix))
  | some _ => .error .badStructure

/-- Whether the type is left to the form of the text even if it has quotes. -/
def isBare (p : Properties) : Bool := p.tag == some ("", "!")

/-- The named nodes, with the node at hand in front of them. -/
def register (p : Properties) (anchors : Anchors) (node : Node) : Anchors :=
  match p.anchor with
  | some name => (name, node) :: anchors
  | none => anchors

/-- Whether the name of the node has been given before, which it may not. -/
def isTaken (p : Properties) (anchors : Anchors) : Bool :=
  p.anchor.any fun name => anchors.any (·.1 == name)

end Properties

/-! ### Trees from tokens -/

namespace Node

/-- The node that is meant where none is written. -/
def missing : Node := .scalar [] true none

/-- The node with the type that is written in front of it. The form of a text decides only if no
type is written, or if the mark in front of it says so. -/
def withType (type : Option String) (bare : Bool) : Node → Node
  | .scalar text plain _ => .scalar text (bare || plain && type.isNone) type
  | .list items _ => .list items type
  | .record pairs _ => .record pairs type
  | .cycle => .cycle

end Node

/-- The tokens in front of which a value is missing: within brackets those that end an element,
outside those that begin or end a member. -/
def endsValue (close : Option Token) (t : Token) : Bool :=
  match close with
  | some close => t == .comma || t == close
  | none => t == .key || t == .value || t == .blockEnd

/-- The tokens in front of which a name is missing. -/
def endsName (close : Option Token) (t : Token) : Bool := t == .value || endsValue close t

/-- The tokens in front of which an element of a list without brackets is missing. The list under a
name has no token at its end. -/
def endsElement (underName : Bool) (t : Token) : Bool :=
  t == .entry || t == .blockEnd || underName && (t == .key || t == .value)

/-- Whether a text, a list or a record begins at the front of tokens. Outside brackets a list or
record may begin without one, and the list under a name may begin in the column of the name. -/
def beginsContent (block underName : Bool) : List Token → Bool
  | .scalar .. :: _ | .openList :: _ | .openRecord :: _ => true
  | .entry :: _ => underName
  | .listStart :: _ | .recordStart :: _ => block
  | _ => false

/-- An element in brackets: a node, or a name with its value. -/
abbrev FlowItem := Node × Option Node

namespace FlowItem

/-- The element as one of a list: a name with its value is a record of its own. -/
def toNode : FlowItem → Node
  | (node, none) => node
  | (name, some value) => .record [(name, value)] none

/-- The element as a member of a record: a lone node is a name. -/
def toPair : FlowItem → Node × Node
  | (name, value) => (name, value.getD .missing)

end FlowItem

mutual

/-- The text, list or record at the front of tokens. The tokens end because of `reason`. -/
def readContent (reason : Fault) (block underName : Bool) (anchors : Anchors) (ts : List Token) :
    Except Fault (Node × Anchors × Fewer ts) :=
  match ts with
  | .scalar text plain :: r => .ok (.scalar text plain none, anchors, ⟨r, by simp⟩)
  | .openList :: r => match readFlow reason .closeList true anchors r with
    | .error f => .error f
    | .ok (items, anchors, ⟨q, hq⟩) =>
      .ok (.list (items.map FlowItem.toNode) none, anchors, ⟨q, Nat.lt_succ_of_lt hq⟩)
  | .openRecord :: r => match readFlow reason .closeRecord true anchors r with
    | .error f => .error f
    | .ok (items, anchors, ⟨q, hq⟩) =>
      .ok (.record (items.map FlowItem.toPair) none, anchors, ⟨q, Nat.lt_succ_of_lt hq⟩)
  | .entry :: r =>
    if underName then
      match readElements reason true anchors r with
      | .error f => .error f
      | .ok (items, anchors, ⟨q, hq⟩) => .ok (.list items none, anchors, ⟨q, Nat.lt_succ_of_le hq⟩)
    else .error .badStructure
  | .listStart :: .entry :: r =>
    if block then
      match readElements reason false anchors r with
      | .error f => .error f
      | .ok (items, anchors, ⟨q, hq⟩) =>
        .ok (.list items none, anchors, ⟨q, Nat.lt_succ_of_lt (Nat.lt_succ_of_le hq)⟩)
    else .error .badStructure
  | .recordStart :: r =>
    if block then
      match readMembers reason anchors r with
      | .error f => .error f
      | .ok (pairs, anchors, ⟨q, hq⟩) =>
        .ok (.record pairs none, anchors, ⟨q, Nat.lt_succ_of_lt hq⟩)
    else .error .badStructure
  | [] => .error reason
  | _ => .error .badStructure
termination_by (ts.length, 0)
decreasing_by all_goals (apply Prod.Lex.left; simp only [List.length_cons]; omega)

/-- The node at the front of tokens: a reference, or properties and a content, one of which may be
missing. -/
def readNode (reason : Fault) (block underName : Bool) (anchors : Anchors) (ts : List Token) :
    Except Fault (Node × Anchors × Fewer ts) :=
  match ts with
  | .alias name :: r => match anchors.lookup name with
    | some node => .ok (node, anchors, ⟨r, by simp⟩)
    | none => .error .badReference
  | ts =>
    match h : Properties.read ts with
    | (p, ⟨r, hr⟩) => match p.type? with
      | .error f => .error f
      | .ok type =>
        if r.isEmpty then .error reason
        else if p.isTaken anchors then .error .badReference
        else if hp : p.isEmpty = false ∧ beginsContent block underName r = false then
          let node := Node.missing.withType type p.isBare
          .ok (node, p.register anchors node, ⟨r, by
            have hlt := @Properties.length_lt_of_read ts (by rw [h]; exact hp.1)
            rw [h] at hlt
            exact hlt⟩)
        else match readContent reason block underName (p.register anchors .cycle) r with
          | .error f => .error f
          | .ok (node, anchors, ⟨q, hq⟩) =>
            let node := node.withType type p.isBare
            .ok (node, p.register anchors node, ⟨q, Nat.lt_of_lt_of_le hq hr⟩)
termination_by (ts.length, 1)
decreasing_by
  rcases Nat.lt_or_eq_of_le hr with hlt | heq
  · exact Prod.Lex.left _ _ hlt
  · rw [heq]; apply Prod.Lex.right; omega

/-- The node at the front of tokens, which is missing in front of some tokens. -/
def readOptional (reason : Fault) (block underName : Bool) (ends : Token → Bool) (anchors : Anchors)
    (ts : List Token) : Except Fault (Node × Anchors × NoMore ts) :=
  match ts with
  | [] => .error reason
  | t :: r =>
    if ends t then .ok (.missing, anchors, ⟨t :: r, Nat.le_refl _⟩)
    else match readNode reason block underName anchors (t :: r) with
      | .error f => .error f
      | .ok (node, anchors, ⟨q, hq⟩) => .ok (node, anchors, ⟨q, Nat.le_of_lt hq⟩)
termination_by (ts.length, 2)
decreasing_by apply Prod.Lex.right; omega

/-- A name and its value, behind the token that begins the name. Within brackets `close` is the
token that closes them. -/
def readPair (reason : Fault) (close : Option Token) (anchors : Anchors) (ts : List Token) :
    Except Fault ((Node × Node) × Anchors × NoMore ts) :=
  match readOptional reason close.isNone close.isNone (endsName close) anchors ts with
  | .error f => .error f
  | .ok (name, anchors, ⟨r, hr⟩) =>
    match r with
    | [] => .error reason
    | .value :: q =>
      match readOptional reason close.isNone close.isNone (endsValue close) anchors q with
      | .error f => .error f
      | .ok (value, anchors, ⟨s, hs⟩) =>
        .ok ((name, value), anchors, ⟨s, by simp only [List.length_cons] at hr; omega⟩)
    | t :: q => .ok ((name, .missing), anchors, ⟨t :: q, hr⟩)
termination_by (ts.length, 3)
decreasing_by
  · apply Prod.Lex.right; omega
  · apply Prod.Lex.left; simp only [List.length_cons] at *; omega

/-- The elements of a list without brackets, behind the hyphen of the first one. -/
def readElements (reason : Fault) (underName : Bool) (anchors : Anchors) (ts : List Token) :
    Except Fault (List Node × Anchors × NoMore ts) :=
  match readOptional reason true false (endsElement underName) anchors ts with
  | .error f => .error f
  | .ok (node, anchors, ⟨r, hr⟩) =>
    match r with
    | [] => .error reason
    | .entry :: q => match readElements reason underName anchors q with
      | .error f => .error f
      | .ok (nodes, anchors, ⟨s, hs⟩) =>
        .ok (node :: nodes, anchors, ⟨s, by simp only [List.length_cons] at hr; omega⟩)
    | t :: q =>
      if underName then .ok ([node], anchors, ⟨t :: q, hr⟩)
      else if t = .blockEnd then
        .ok ([node], anchors, ⟨q, by simp only [List.length_cons] at hr; omega⟩)
      else .error .badStructure
termination_by (ts.length, 3)
decreasing_by
  · apply Prod.Lex.right; omega
  · apply Prod.Lex.left; simp only [List.length_cons] at *; omega

/-- The members of a record without brackets. -/
def readMembers (reason : Fault) (anchors : Anchors) (ts : List Token) :
    Except Fault (List (Node × Node) × Anchors × Fewer ts) :=
  match ts with
  | [] => .error reason
  | .blockEnd :: r => .ok ([], anchors, ⟨r, by simp⟩)
  | .key :: r => match readPair reason none anchors r with
    | .error f => .error f
    | .ok (pair, anchors, ⟨q, hq⟩) => match readMembers reason anchors q with
      | .error f => .error f
      | .ok (pairs, anchors, ⟨s, hs⟩) =>
        .ok (pair :: pairs, anchors, ⟨s, by simp only [List.length_cons]; omega⟩)
  | _ => .error .badStructure
termination_by (ts.length, 4)
decreasing_by all_goals (apply Prod.Lex.left; simp only [List.length_cons]; omega)

/-- The elements in brackets up to the token that closes them, behind the opening one or behind an
element. -/
def readFlow (reason : Fault) (close : Token) (first : Bool) (anchors : Anchors) (ts : List Token) :
    Except Fault (List FlowItem × Anchors × Fewer ts) :=
  match ts with
  | [] => .error reason
  | t :: r =>
    if t = close then .ok ([], anchors, ⟨r, by simp⟩)
    else if first then readFlowItem reason close anchors (t :: r)
    else if t = .comma then
      match r with
      | [] => .error reason
      | u :: q =>
        if u = close then .ok ([], anchors, ⟨q, by simp only [List.length_cons]; omega⟩)
        else match readFlowItem reason close anchors (u :: q) with
          | .error f => .error f
          | .ok (items, anchors, ⟨s, hs⟩) => .ok (items, anchors, ⟨s, Nat.lt_succ_of_lt hs⟩)
    else .error .badStructure
termination_by (ts.length, 4)
decreasing_by
  · apply Prod.Lex.right; omega
  · apply Prod.Lex.left; simp only [List.length_cons]; omega

/-- An element in brackets, and those behind it. -/
def readFlowItem (reason : Fault) (close : Token) (anchors : Anchors) (ts : List Token) :
    Except Fault (List FlowItem × Anchors × Fewer ts) :=
  match ts with
  | .key :: r => match readPair reason (some close) anchors r with
    | .error f => .error f
    | .ok ((name, value), anchors, ⟨q, hq⟩) => match readFlow reason close false anchors q with
      | .error f => .error f
      | .ok (items, anchors, ⟨s, hs⟩) =>
        .ok ((name, some value) :: items, anchors, ⟨s, by simp only [List.length_cons]; omega⟩)
  | ts => match readNode reason false false anchors ts with
    | .error f => .error f
    | .ok (node, anchors, ⟨q, hq⟩) => match readFlow reason close false anchors q with
      | .error f => .error f
      | .ok (items, anchors, ⟨s, hs⟩) =>
        .ok ((node, none) :: items, anchors, ⟨s, Nat.lt_trans hs hq⟩)
termination_by (ts.length, 3)
decreasing_by
  · apply Prod.Lex.left; simp only [List.length_cons]; omega
  · apply Prod.Lex.left; simp only [List.length_cons]; omega
  · apply Prod.Lex.right; omega
  · exact Prod.Lex.left _ _ hq

end

/-! ### Documents -/

/-- Tokens without those of a kind at their front. -/
def behindAll (t : Token) (ts : List Token) : List Token := ts.dropWhile (· == t)

/-- The tokens behind the mark that begins a document, or none at the end of the text. -/
def documentContent (reason : Fault) (ts : List Token) : Except Fault (Option (List Token)) :=
  match behindAll .documentEnd ts with
  | [] => .error reason
  | .finish :: _ => .ok none
  | ts => match behindAll .directive ts with
    | [] => .error reason
    | .documentStart :: r => .ok (some r)
    | _ => .error .badStructure

/-- Whether a document that has been begun by its mark is empty in front of a token. -/
def endsDocument (t : Token) : Bool :=
  t == .directive || t == .documentStart || t == .documentEnd || t == .finish

/-- The root of a document, and the tokens behind it. -/
def readRoot (reason : Fault) (ends : Token → Bool) (ts : List Token) :
    Except Fault (Node × List Token) :=
  (readOptional reason true false ends [] ts).map fun (node, _, rest) => (node, rest.val)

/-- The only document of a text, none if the text holds nothing. Its mark may be left out. -/
def readTokens (reason : Fault) (ts : List Token) : Except Fault (Option Node) := do
  let found ← match ts with
    | [] => .error reason
    | t :: _ =>
      if t = .directive ∨ t = .documentStart ∨ t = .finish then do
        match ← documentContent reason ts with
        | some rest => (readRoot reason endsDocument rest).map some
        | none => pure none
      else (readRoot reason (fun _ => false) ts).map some
  match found with
  | none => pure none
  | some (node, rest) =>
    match ← documentContent reason rest with
    | none => pure (some node)
    | some _ => .error .badReference

/-- A text whose lines end with line feeds, whatever they ended with before. -/
def withLineFeeds : List Char → List Char
  | '\r' :: '\n' :: cs => '\n' :: withLineFeeds cs
  | '\r' :: cs => '\n' :: withLineFeeds cs
  | c :: cs => c :: withLineFeeds cs
  | [] => []

/-- A text that is examined in portions, of which the first has a size and all others another one. A
portion with a character that no document may hold is examined as that character alone, and nothing
follows it. -/
def examined (first others : Nat) (cs : List Char) : List Char :=
  let portion := cs.take (first + 1)
  match _h : portion.find? fun c => !isAdmitted c with
  | some c => [c]
  | none =>
    if portion.length < first + 1 then portion
    else portion ++ examined others others (cs.drop (first + 1))
termination_by cs.length
decreasing_by
  simp only [List.length_drop, portion, List.length_take] at *
  omega

/-- The only document of a text, none if the text holds nothing. The text is examined in portions of
4096 characters, the first two together. -/
def readDocument (text : String) : Except Fault (Option Node) :=
  let (ts, reason) := tokens (examined 8191 4095 (withLineFeeds text.toList))
  readTokens (reason.getD .badStructure) ts

/-! ### Values -/

/-- The types with a value, without the name that they share. -/
def sharedTypes : String := "tag:yaml.org,2002:"

/-- The value of a text whose form decides what it stands for. -/
def plainValue (cs : List Char) : Except Fault Value :=
  match Plain.kind cs with
  | .text => .ok (.text (String.ofList cs))
  | .moment => match Plain.moment? cs with
    | some m => if m.isReal then .ok (.moment m) else .error .badValue
    | none => .ok (.text (String.ofList cs))
  | .null => .ok .null
  | .bool => .ok (.bool (Plain.trueWords.contains (String.ofList cs)))
  | .int => match Plain.int? cs with
    | some n => .ok (.int n)
    | none => .error .badValue
  | .float => .ok (.float (Plain.float cs))
  | .merge | .default => .error .badNode

/-- The value of a text of a given type. -/
def typedValue (type : String) (cs : List Char) : Except Fault Value :=
  if type = sharedTypes ++ "str" then .ok (.text (String.ofList cs))
  else if type = sharedTypes ++ "null" then .ok .null
  else if type = sharedTypes ++ "bool" then
    let word := String.ofList (cs.map Char.toLower)
    if Plain.trueWords.contains word then .ok (.bool true)
    else if Plain.falseWords.contains word then .ok (.bool false)
    else .error .missingKey
  else if type = sharedTypes ++ "int" then
    match (if Plain.isInt cs then Plain.int? cs else none) with
    | some n => .ok (.int n)
    | none => .error .badValue
  else if type = sharedTypes ++ "float" then
    if Plain.isFloat cs then .ok (.float (Plain.float cs))
    else if Plain.isInt cs then .ok (.float (Plain.decimal cs))
    else .error .badValue
  else .error .badNode

/-- The type that a list or a record may be given by the last part of its name: its own. -/
def isTypeOf (name : String) (type : Option String) : Bool :=
  type.isNone || type == some (sharedTypes ++ name)

namespace Node

mutual

/-- The number of nodes of a tree. -/
def size : Node → Nat
  | .scalar .. | .cycle => 1
  | .list items _ => 1 + sizeAll items
  | .record pairs _ => 1 + sizeOfPairs pairs

/-- The number of nodes of several trees. -/
def sizeAll : List Node → Nat
  | [] => 0
  | n :: ns => size n + sizeAll ns

/-- The number of nodes of names and values. -/
def sizeOfPairs : List (Node × Node) → Nat
  | [] => 0
  | (k, v) :: pairs => size k + size v + sizeOfPairs pairs

end

/-- Whether a name stands for the members of other records. -/
def isMerge : Node → Bool
  | .scalar text true _ => Plain.kind text == .merge
  | _ => false

/-- A node as a name: that of the default member is a text. -/
def asName : Node → Node
  | .scalar text true type =>
    if Plain.kind text == .default then .scalar text false none else .scalar text true type
  | n => n

mutual

/-- The names and values of a record with those that it takes over from other records, which stand
in front of its own. The two parts are given apart. -/
def flatten : List (Node × Node) → Except Fault (List (Node × Node) × List (Node × Node))
  | [] => .ok ([], [])
  | (k, v) :: pairs =>
    if k.isMerge then do
      let taken ← sources v
      let (merged, own) ← flatten pairs
      pure (taken ++ merged, own)
    else do
      let (merged, own) ← flatten pairs
      pure (merged, (k.asName, v) :: own)

/-- The names and values of the record that another one takes them over from, or of several records,
the last one first. -/
def sources : Node → Except Fault (List (Node × Node))
  | .record pairs _ => do
    let (merged, own) ← flatten pairs
    pure (merged ++ own)
  | .list items _ => sourcesOfAll items
  | .scalar .. | .cycle => .error .badNode

/-- The names and values of several records, the last one first. -/
def sourcesOfAll : List Node → Except Fault (List (Node × Node))
  | [] => .ok []
  | .record pairs _ :: ns => do
    let (merged, own) ← flatten pairs
    let rest ← sourcesOfAll ns
    pure (rest ++ (merged ++ own))
  | _ :: _ => .error .badNode

end

/-- The names and values of a record. -/
def members (pairs : List (Node × Node)) : Except Fault (List (Node × Node)) := do
  let (merged, own) ← flatten pairs
  pure (merged ++ own)

/-- The value of a text. -/
def scalarValue (text : List Char) (plain : Bool) (type : Option String) : Except Fault Value :=
  if plain then plainValue text
  else match type with
    | none => .ok (.text (String.ofList text))
    | some type => typedValue type text

/-- Whether a node can be a name. -/
def isName : Node → Bool
  | .scalar .. => true
  | _ => false

/-- What is found out where a node is met: whether a text has a value, and whether a list or a
record is of a type of its own. -/
def meet : Node → Except Fault Unit
  | .scalar text plain type => (scalarValue text plain type).map fun _ => ()
  | .list _ type => if isTypeOf "seq" type then .ok () else .error .badNode
  | .record _ type => if isTypeOf "map" type then .ok () else .error .badNode
  | .cycle => .error .badNode

/-- The nodes inside a node, each of which is met in turn. A list or a record is no name. -/
def parts : Node → Except Fault (List Node)
  | .scalar .. | .cycle => .ok []
  | .list items _ => do
    items.forM meet
    pure items
  | .record pairs _ => do
    let pairs ← members pairs
    pairs.forM fun (k, v) => do
      k.meet
      if !k.isName then .error .badNode
      v.meet
    pure (pairs.map (·.2))

/-- Examines the nodes of a queue and those inside them, level by level. The first one in that order
that stands for no value decides. -/
def examine : (fuel : Nat) → List Node → Except Fault Unit
  | 0, _ | _, [] => .ok ()
  | fuel + 1, n :: queue => do
    let inner ← n.parts
    examine fuel (queue ++ inner)

/-- The value of a node whose depth is below a bound. -/
def valueWithin : (depth : Nat) → Node → Except Fault Value
  | 0, _ | _, .cycle => .error .badNode
  | _, .scalar text plain type => scalarValue text plain type
  | depth + 1, .list items _ => (items.mapM (valueWithin depth)).map .list
  | depth + 1, .record pairs _ => do
    let named ← (← members pairs).mapM fun (k, v) => do
      let name ← valueWithin depth k
      let v ← valueWithin depth v
      pure (name, v)
    pure (.record (Members.ofPairs named))

/-- The value that a node stands for. -/
def value (n : Node) : Except Fault Value := do
  n.meet
  examine n.size [n]
  valueWithin (n.size + 1) n

end Node

end BranchForm.Yaml
