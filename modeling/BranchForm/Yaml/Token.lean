import BranchForm.Yaml.Scalar

/-!
# Tokens of a YAML document

A text is divided into tokens from left to right. Most tokens are told by their first characters;
only that a text or a bracket is the name of a member is told by the colon behind it, on the same
line. The columns at which tokens stand open and close the lists and records that have no brackets.

* `Yaml.Token` lists the tokens;
* `Yaml.Lexer` is the state of a division: what is left, the open brackets and columns, and the
  places where a name may have begun;
* `Yaml.Lexer.step` reads one token with the ends of collections in front of it;
* `Yaml.tokens` divides a whole text. Where that fails, the tokens are those whose meaning was
  settled before the failure.
-/

namespace BranchForm.Yaml

/-- A token. -/
inductive Token where
  /-- A line of instructions in front of a document. -/
  | directive
  /-- The begin of a document. -/
  | documentStart
  /-- The end of a document. -/
  | documentEnd
  /-- The begin of a list without brackets. -/
  | listStart
  /-- The begin of a record without brackets. -/
  | recordStart
  /-- The end of a list or record without brackets. -/
  | blockEnd
  /-- An opening bracket. -/
  | openList
  /-- A closing bracket. -/
  | closeList
  /-- An opening brace. -/
  | openRecord
  /-- A closing brace. -/
  | closeRecord
  /-- A comma. -/
  | comma
  /-- The hyphen in front of an element. -/
  | entry
  /-- The begin of a name. -/
  | key
  /-- The colon in front of a value. -/
  | value
  /-- A reference to a named node. -/
  | alias (name : String)
  /-- The name of a node. -/
  | anchor (name : String)
  /-- The type of a node: a handle and the rest of its name. -/
  | tag (handle suffix : String)
  /-- A text, and whether it has no quotes. -/
  | scalar (text : List Char) (plain : Bool)
  /-- The end of the text. -/
  | finish
  deriving DecidableEq, Repr

/-- A place where the name of a member may have begun. -/
structure PossibleKey where
  /-- The count of tokens in front of it. -/
  place : Nat
  /-- Whether nothing but a name may stand there. -/
  required : Bool
  /-- The count of characters left there. -/
  left : Nat
  /-- The line. -/
  line : Nat
  /-- The column. -/
  column : Nat
  deriving DecidableEq, Repr

/-- The state of the division of a text. -/
structure Lexer where
  /-- What is left of the text. -/
  rest : List Char
  /-- The count of lines read. -/
  line : Nat := 0
  /-- The column in the present line. -/
  column : Nat := 0
  /-- The count of open brackets. -/
  depth : Nat := 0
  /-- The columns of the open collections without brackets, the innermost first. -/
  columns : List Nat := []
  /-- Whether a name may begin here. -/
  keyAllowed : Bool := true
  /-- The places where a name may have begun, with the count of brackets open there. -/
  keys : List (Nat × PossibleKey) := []
  /-- The tokens read. -/
  tokens : Array Token := #[]
  /-- Whether the end has been reached. -/
  finished : Bool := false
  deriving Repr

namespace Lexer

/-! ### Places -/

/-- The state behind the characters in front of `rest`. A byte order mark takes no column. -/
def moveTo (l : Lexer) (rest : List Char) : Lexer :=
  let read := l.rest.take (l.rest.length - rest.length)
  let (line, column) := read.foldl (fun (line, column) c =>
    if isBreak c then (line + 1, 0)
    else (line, if c = '\uFEFF' then column else column + 1)) (l.line, l.column)
  { l with rest, line, column }

/-- The state with a token read. -/
def emit (l : Lexer) (t : Token) : Lexer := { l with tokens := l.tokens.push t }

/-- The state with a token read that ends in front of `rest`. -/
def read (l : Lexer) (t : Token) (rest : List Char) : Lexer := (l.moveTo rest).emit t

/-- Whether the collection at hand begins in front of the present column. -/
def isIndented (l : Lexer) (column : Nat) : Bool :=
  match l.columns with
  | [] => true
  | n :: _ => n < column

/-- Whether the collection at hand begins at the present column. -/
def isAligned (l : Lexer) : Bool := l.columns.head? == some l.column

/-- The first column in which the text of an element may stand. -/
def innerColumn (l : Lexer) : Nat :=
  match l.columns with
  | [] => 0
  | n :: _ => n + 1

/-- Closes the collections that begin behind a column, all of them if none is given. Inside brackets
columns do not count. -/
def closeTo (l : Lexer) (column : Option Nat) : Lexer :=
  if l.depth ≠ 0 then l
  else
    let isOpen (n : Nat) : Bool := match column with
      | none => true
      | some column => column < n
    let closed := (l.columns.takeWhile isOpen).length
    { l with
      columns := l.columns.drop closed
      tokens := l.tokens ++ Array.replicate closed Token.blockEnd }

/-- Opens a collection at a column, with its token at a place among those read. -/
def openAt (l : Lexer) (column place : Nat) (t : Token) : Lexer :=
  if l.depth = 0 ∧ l.isIndented column then
    { l with columns := column :: l.columns, tokens := l.tokens.insertIdxIfInBounds place t }
  else l

/-- Opens a collection at the present column. -/
def openHere (l : Lexer) (t : Token) : Lexer := l.openAt l.column l.tokens.size t

/-! ### Names of members -/

/-- Whether a name can no longer have begun at a place: the line is over, or it would be too long.
-/
def isStale (l : Lexer) (k : PossibleKey) : Bool :=
  k.line != l.line || 1024 < k.left - l.rest.length

/-- Gives up the places where a name can no longer have begun. -/
def dropStale (l : Lexer) : Except Fault Lexer :=
  if l.keys.any fun (_, k) => k.required && l.isStale k then .error .badToken
  else .ok { l with keys := l.keys.filter fun (_, k) => !l.isStale k }

/-- Gives up the place within the present brackets. -/
def dropKey (l : Lexer) : Except Fault Lexer :=
  match l.keys.lookup l.depth with
  | some k =>
    if k.required then .error .badToken
    else .ok { l with keys := l.keys.filter (·.1 != l.depth) }
  | none => .ok l

/-- Notes that a name may begin here. -/
def saveKey (l : Lexer) : Except Fault Lexer :=
  if l.keyAllowed then do
    let required := l.depth = 0 ∧ l.isAligned
    let l ← l.dropKey
    let k : PossibleKey := {
      place := l.tokens.size, required, left := l.rest.length, line := l.line, column := l.column }
    pure { l with keys := (l.depth, k) :: l.keys }
  else pure l

/-- The tokens whose meaning is settled: those in front of every place where a name may have begun.
-/
def settled (l : Lexer) : List Token :=
  l.tokens.toList.take (l.keys.foldl (fun n (_, k) => min n k.place) l.tokens.size)

/-! ### Single tokens -/

/-- What follows blanks, comments and line breaks at the front of a text, and whether a line break
is among them. -/
def behindGaps (inComment broken : Bool) : List Char → Bool × List Char
  | [] => (broken, [])
  | c :: cs =>
    if isBreak c then behindGaps false true cs
    else if !isAdmitted c then (broken, c :: cs)
    else if inComment then behindGaps true broken cs
    else if c = ' ' then behindGaps false broken cs
    else if c = '#' then behindGaps true broken cs
    else (broken, c :: cs)

/-- The text without the byte order mark that may stand in front of it. -/
def behindMark (l : Lexer) : List Char :=
  match l.rest with
  | '\uFEFF' :: cs => if l.line = 0 ∧ l.column = 0 then cs else l.rest
  | cs => cs

/-- Passes blanks, comments and line breaks. Outside brackets a name may begin on a new line. -/
def skipGaps (l : Lexer) : Lexer :=
  let (broken, rest) := behindGaps false false l.behindMark
  { l.moveTo rest with keyAllowed := l.keyAllowed || (broken && l.depth = 0) }

/-- Reads the end of the text. -/
def finish (l : Lexer) : Except Fault Lexer := do
  let l ← (l.closeTo none).dropKey
  pure { l.emit .finish with keyAllowed := false, keys := [], finished := true }

/-- Reads a token that stands between documents. -/
def readBetween (l : Lexer) (t : Token) (rest : List Char) : Except Fault Lexer := do
  let l ← (l.closeTo none).dropKey
  pure { l.read t rest with keyAllowed := false }

/-- Reads an opening bracket. -/
def readOpen (l : Lexer) (t : Token) (rest : List Char) : Except Fault Lexer := do
  let l ← l.saveKey
  pure { l.read t rest with depth := l.depth + 1, keyAllowed := true }

/-- Reads a closing bracket. -/
def readClose (l : Lexer) (t : Token) (rest : List Char) : Except Fault Lexer := do
  let l ← l.dropKey
  pure { l.read t rest with depth := l.depth - 1, keyAllowed := false }

/-- Reads a comma. -/
def readComma (l : Lexer) (rest : List Char) : Except Fault Lexer := do
  let l ← l.dropKey
  pure { l.read .comma rest with keyAllowed := true }

/-- Reads the hyphen in front of an element. -/
def readEntry (l : Lexer) (rest : List Char) : Except Fault Lexer :=
  if l.depth = 0 ∧ !l.keyAllowed then .error .badToken
  else do
    let l ← (l.openHere .listStart).dropKey
    pure { l.read .entry rest with keyAllowed := true }

/-- Reads the question mark in front of a name. -/
def readKey (l : Lexer) (rest : List Char) : Except Fault Lexer :=
  if l.depth = 0 ∧ !l.keyAllowed then .error .badToken
  else do
    let l ← (l.openHere .recordStart).dropKey
    pure { l.read .key rest with keyAllowed := l.depth = 0 }

/-- Reads the colon in front of a value. If a name may have begun on the line, it did. -/
def readValue (l : Lexer) (rest : List Char) : Except Fault Lexer :=
  match l.keys.lookup l.depth with
  | some k =>
    let l := { l with
      keys := l.keys.filter (·.1 != l.depth)
      tokens := l.tokens.insertIdxIfInBounds k.place .key }
    .ok { (l.openAt k.column k.place .recordStart).read .value rest with keyAllowed := false }
  | none =>
    if l.depth = 0 ∧ !l.keyAllowed then .error .badToken
    else do
      let l ← (l.openHere .recordStart).dropKey
      pure { l.read .value rest with keyAllowed := l.depth = 0 }

/-- Reads a token that may begin a name. -/
def readName (l : Lexer) (t : Token) (rest : List Char) : Except Fault Lexer := do
  let l ← l.saveKey
  pure { l.read t rest with keyAllowed := false }

/-- Whether a character may stand in the name of a node. -/
def isNameChar (c : Char) : Bool := c.isAlphanum || c == '-' || c == '_'

/-- The characters that may follow the name of a node, besides blanks. -/
def nameEnds : List Char := ['?', ':', ',', ']', '\x7d', '%', '@', '\x60']

/-- The name of a node behind its mark, and what follows. -/
def nodeName (cs : List Char) : Except Fault (String × List Char) :=
  let name := cs.takeWhile isNameChar
  let rest := cs.dropWhile isNameChar
  let ended := endsWord rest || rest.head?.any nameEnds.contains
  if name.isEmpty || !ended then .error (refusal rest) else .ok (String.ofList name, rest)

/-- The punctuation that may stand in the name of a type. -/
def tagPunctuation : List Char := "-;/?:@&=+$,_.!~*'()[]%".toList

/-- Whether a character may stand in the name of a type. -/
def isTagChar (c : Char) : Bool := c.isAlphanum || tagPunctuation.contains c

/-- The name of a type behind its exclamation mark, and what follows. -/
def tagName (cs : List Char) : Except Fault (Token × List Char) :=
  let name (handle : String) (cs : List Char) : Except Fault (Token × List Char) :=
    let suffix := cs.takeWhile isTagChar
    if suffix.isEmpty then .error (refusal cs)
    else .ok (.tag handle (String.ofList suffix), cs.dropWhile isTagChar)
  let found : Except Fault (Token × List Char) := match cs with
    | '<' :: cs => match name "" cs with
      | .ok (t, '>' :: rest) => .ok (t, rest)
      | .ok (_, rest) => .error (refusal rest)
      | .error f => .error f
    | cs =>
      let word := cs.takeWhile fun c => c != ' ' && !isBreak c
      if endsWord cs then .ok (.tag "" "!", cs)
      else if !(word.takeWhile (· != '!')).all isAdmitted then .error .badCharacter
      else if word.contains '!' then
        let handle := cs.takeWhile isNameChar
        match cs.dropWhile isNameChar with
        | '!' :: rest => name (String.ofList ('!' :: handle ++ ['!'])) rest
        | rest => .error (refusal rest)
      else name "!" cs
  match found with
  | .ok (t, rest) =>
    if endsLine rest || rest.head? == some ' ' then .ok (t, rest) else .error (refusal rest)
  | .error f => .error f

/-- Reads a line of instructions, which begins with a name. -/
def readDirective (l : Lexer) (cs : List Char) : Except Fault Lexer :=
  let rest := cs.dropWhile isNameChar
  if (cs.takeWhile isNameChar).isEmpty || !(endsLine rest || rest.head? == some ' ') then
    .error (refusal rest)
  else
    let rest := lineEnd rest
    if isBarred rest then .error .badCharacter else l.readBetween .directive (rest.drop 1)

/-- Reads a text in quotes. -/
def readText (l : Lexer) (double : Bool) (rest : List Char) : Except Fault Lexer := do
  let (text, rest) ← readQuoted double .empty [] rest
  l.readName (.scalar text false) rest

/-- Reads a block of lines. -/
def readLines (l : Lexer) (folded : Bool) (rest : List Char) : Except Fault Lexer := do
  let l ← l.dropKey
  let (text, rest) ← readBlock folded (max 1 l.innerColumn) rest
  pure { l.read (.scalar text false) rest with keyAllowed := true }

/-- Reads a text without quotes. -/
def readWords (l : Lexer) : Except Fault Lexer := do
  let (text, broken, rest) ← readPlain (l.depth ≠ 0) l.innerColumn .empty 0 [] l.rest
  let l ← l.readName (.scalar text true) rest
  pure { l with keyAllowed := broken }

/-- The characters that cannot begin a text without quotes wherever they stand. -/
def marks : List Char :=
  ['-', '?', ':', ',', '[', ']', '\x7b', '\x7d', '#', '&', '*', '!', '|', '>', '\'', '"', '%', '@',
    '\x60']

/-- Whether a text without quotes begins with a character. -/
def beginsWord (l : Lexer) (c : Char) (cs : List Char) : Bool :=
  !(isGap c || marks.contains c) ||
    !endsWord cs && (c == '-' || l.depth = 0 && (c == '?' || c == ':'))

/-- Reads the token that begins with a character. -/
def readFrom (l : Lexer) (c : Char) (cs : List Char) : Except Fault Lexer :=
  let inBrackets := l.depth ≠ 0
  if c = '%' ∧ l.column = 0 then l.readDirective cs
  else if (c = '-' ∨ c = '?' ∨ c = ':') ∧ isBarred cs then .error .badCharacter
  else if c = '[' then l.readOpen .openList cs
  else if c = '\x7b' then l.readOpen .openRecord cs
  else if c = ']' then l.readClose .closeList cs
  else if c = '\x7d' then l.readClose .closeRecord cs
  else if c = ',' then l.readComma cs
  else if c = '-' ∧ endsWord cs then l.readEntry cs
  else if c = '?' ∧ (inBrackets ∨ endsWord cs) then l.readKey cs
  else if c = ':' ∧ (inBrackets ∨ endsWord cs) then l.readValue cs
  else if c = '*' then do
    let (name, rest) ← nodeName cs
    l.readName (.alias name) rest
  else if c = '&' then do
    let (name, rest) ← nodeName cs
    l.readName (.anchor name) rest
  else if c = '!' then do
    let (t, rest) ← tagName cs
    l.readName t rest
  else if c = '|' ∧ !inBrackets then l.readLines false cs
  else if c = '>' ∧ !inBrackets then l.readLines true cs
  else if c = '\'' then l.readText false cs
  else if c = '"' then l.readText true cs
  else if l.beginsWord c cs then l.readWords
  else .error (refusal cs)

/-- Reads the mark that begins or ends a document at the front of a line, if there is one. -/
def readRule? (l : Lexer) (c : Char) (cs : List Char) : Except Fault (Option Lexer) :=
  if l.column = 0 ∧ (c = '-' ∨ c = '.') then do
    if ← isRule c (c :: cs) then
      let l ← l.readBetween (if c = '-' then .documentStart else .documentEnd) (cs.drop 2)
      pure (some l)
    else pure none
  else .ok none

/-- Reads one token, with the ends of collections in front of it. A name that has to begin on a line
must be known for one at the end of the line. The character behind a token is always looked at. -/
def step (l : Lexer) : Except Fault Lexer := do
  let l := l.skipGaps
  if isBarred l.rest then .error .badCharacter
  let l ← l.dropStale
  let l := l.closeTo (some l.column)
  match l.rest with
  | [] => l.finish
  | c :: cs => do
    let l ← match ← l.readRule? c cs with
      | some l => pure l
      | none => l.readFrom c cs
    if isBarred l.rest then .error .badCharacter
    l.dropStale

/-- Reads token after token. A step that leaves no less of the text is the last one. -/
def run (l : Lexer) : List Token × Option Fault :=
  match l.step with
  | .error f => (l.settled, some f)
  | .ok next =>
    if next.finished then (next.tokens.toList, none)
    else if next.rest.length < l.rest.length then next.run
    else (next.settled, some .badToken)
termination_by l.rest.length

end Lexer

/-- The tokens of a text, and the reason why it could not be divided further. -/
def tokens (cs : List Char) : List Token × Option Fault := Lexer.run { rest := cs }

end BranchForm.Yaml
