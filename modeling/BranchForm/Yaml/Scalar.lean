import BranchForm.Error
import BranchForm.Text.Hex
import BranchForm.Yaml.Line

/-!
# Texts in a YAML document

A text is written in quotes, without quotes, or as a block of lines. In the first two forms line
breaks are folded: one stands for a blank, and of several the first one is dropped.

* `Yaml.Gap` is the white space between two words, `Yaml.Gap.text` what it stands for;
* `Yaml.readQuoted` reads a text up to its closing quote;
* `Yaml.readPlain` reads a text without quotes up to the place where it cannot go on;
* `Yaml.readBlock` reads the lines of a block, and `Yaml.Block.finish` decides on those at its end.

Each function gives the text together with what follows it.
-/

namespace BranchForm.Yaml

/-! ### White space between words -/

/-- The white space between two words of a text. -/
inductive Gap where
  /-- Blanks on one line, the last one first. -/
  | blanks (seen : List Char)
  /-- A first line break, unless it was escaped, and further ones, the last one first. -/
  | lines (first : Option Char) (more : List Char)
  deriving DecidableEq, Repr

namespace Gap

/-- No white space. -/
def empty : Gap := .blanks []

/-- The gap with a blank behind it: one at the front of a line does not count. -/
def blank (c : Char) : Gap → Gap
  | .blanks seen => .blanks (c :: seen)
  | .lines first more => .lines first more

/-- The gap with a line break behind it. Blanks at the end of a line do not count. -/
def lineBreak (c : Char) : Gap → Gap
  | .blanks _ => .lines (some (breakChar c)) []
  | .lines first more => .lines first (breakChar c :: more)

/-- What a gap stands for. -/
def text : Gap → List Char
  | .blanks seen => seen.reverse
  | .lines none more => more.reverse
  | .lines (some c) more =>
    if c ≠ '\n' then c :: more.reverse
    else if more.isEmpty then [' '] else more.reverse

/-- Whether a gap goes over the end of a line. -/
def isLines : Gap → Bool
  | .blanks _ => false
  | .lines _ _ => true

end Gap

/-! ### Texts in quotes -/

/-- The characters that a backslash and one character stand for. -/
def simpleEscapes : List (Char × Nat) :=
  [('0', 0), ('a', 7), ('b', 8), ('t', 9), ('\t', 9), ('n', 10), ('v', 11), ('f', 12), ('r', 13),
    ('e', 27), (' ', 32), ('"', 34), ('\\', 92), ('/', 47), ('N', 0x85), ('_', 0xA0), ('L', 0x2028),
    ('P', 0x2029)]

/-- The count of hexadecimal digits behind a backslash and a letter. -/
def escapeWidths : List (Char × Nat) := [('x', 2), ('u', 4), ('U', 8)]

/-- The number at the front of a text, written in a count of hexadecimal digits. -/
def hexNumber : (width : Nat) → (value : Nat) → List Char → Option Nat
  | 0, value, _ => some value
  | _ + 1, _, [] => none
  | width + 1, value, c :: cs => (Text.hexValue c).bind fun d => hexNumber width (16 * value + d) cs

/-- The second half of a pair of surrogates that is written in escapes at the front of a text. -/
def secondHalf : List Char → Option Nat
  | '\\' :: 'u' :: cs => (hexNumber 4 0 cs).filter fun n => 0xDC00 ≤ n && n < 0xE000
  | _ => none

/-- The character with a code point, and the count of characters it takes from the text behind it:
half a pair of surrogates takes its other half, and stands for no character alone. -/
def pointChar (n : Nat) (cs : List Char) : Except Fault (Char × Nat) :=
  if 0x10FFFF < n then .error .badValue
  else if 0xD800 ≤ n ∧ n < 0xE000 then
    match secondHalf cs with
    | some m =>
      if n < 0xDC00 then .ok (Char.ofNat (0x10000 + (n - 0xD800) * 0x400 + (m - 0xDC00)), 6)
      else .ok (Char.ofNat 0xFFFD, 0)
    | none => .ok (Char.ofNat 0xFFFD, 0)
  else .ok (Char.ofNat n, 0)

/-- The character that a backslash and the letter behind it stand for, and the count of characters
behind the letter that belong to it. -/
def readEscape (letter : Char) (cs : List Char) : Except Fault (Char × Nat) :=
  match simpleEscapes.lookup letter, escapeWidths.lookup letter with
  | some n, _ => .ok (Char.ofNat n, 0)
  | none, some width => match hexNumber width 0 cs with
    | some n => (pointChar n (cs.drop width)).map fun (c, more) => (c, width + more)
    | none => .error (refusal (cs.dropWhile fun c => (Text.hexValue c).isSome))
  | none, none => .error (refusal [letter])

/-- A text up to its closing quote, of which `seen` has been read, the last character first, and
then a gap. Single quotes are doubled inside single ones, and a backslash escapes inside double
ones. -/
def readQuoted (double : Bool) (gap : Gap) (seen : List Char) (cs : List Char) :
    Except Fault (List Char × List Char) :=
  match cs with
  | [] => .error .badToken
  | c :: cs =>
    if isBlank c then readQuoted double (gap.blank c) seen cs
    else if isBreak c then
      match separates cs with
      | .error f => .error f
      | .ok true => .error .badToken
      | .ok false => readQuoted double (gap.lineBreak c) seen cs
    else if !isAdmitted c then .error .badCharacter
    else
      let seen := gap.text.reverse ++ seen
      if c = '"' ∧ double then .ok (seen.reverse, cs)
      else if c = '\'' ∧ !double then
        match cs with
        | '\'' :: r => readQuoted double .empty ('\'' :: seen) r
        | _ => .ok (seen.reverse, cs)
      else if c = '\\' ∧ double then
        match cs with
        | [] => .error .badToken
        | e :: r =>
          if isBreak e then
            match separates r with
            | .error f => .error f
            | .ok true => .error .badToken
            | .ok false => readQuoted double (.lines none []) seen r
          else match readEscape e r with
            | .error f => .error f
            | .ok (ch, n) => readQuoted double .empty (ch :: seen) (r.drop n)
      else readQuoted double .empty (c :: seen) cs
termination_by cs.length
decreasing_by all_goals (simp only [List.length_cons, List.length_drop] at *; omega)

/-! ### Texts without quotes -/

/-- The characters that set off the elements of a list or record in brackets. -/
def flowMarks : List Char := [',', '[', ']', '\x7b', '\x7d']

/-- Whether a text without quotes ends at a colon in front of `cs`. -/
def endsAtColon (inBrackets : Bool) (cs : List Char) : Bool :=
  endsWord cs || inBrackets && (match cs with
    | d :: _ => flowMarks.contains d
    | [] => true)

/-- Whether a text without quotes cannot go on with a character. -/
def endsPlain (inBrackets : Bool) (c : Char) (cs : List Char) : Bool :=
  c == '\t' || !isAdmitted c || c == ':' && endsAtColon inBrackets cs ||
    inBrackets && (c == '?' || flowMarks.contains c)

/-- A text without quotes, of which `seen` has been read, the last character first, and then a gap
that ends at a column. Outside brackets the lines that continue it begin at `indent` or behind. The
result tells also whether the gap at its end goes over the end of a line. -/
def readPlain (inBrackets : Bool) (indent : Nat) (gap : Gap) (column : Nat) (seen : List Char) :
    List Char → Except Fault (List Char × Bool × List Char)
  | [] => .ok (seen.reverse, gap.isLines, [])
  | c :: cs =>
    if c = ' ' then readPlain inBrackets indent (gap.blank c) (column + 1) seen cs
    else if isBreak c then
      match separates cs with
      | .error f => .error f
      | .ok true => .ok (seen.reverse, true, cs)
      | .ok false => readPlain inBrackets indent (gap.lineBreak c) 0 seen cs
    else if (c = '#' ∧ gap ≠ .empty) ∨ (gap.isLines ∧ !inBrackets ∧ column < indent) ∨
        endsPlain inBrackets c cs then
      .ok (seen.reverse, gap.isLines, c :: cs)
    else readPlain inBrackets indent .empty (column + 1) (c :: gap.text.reverse ++ seen) cs

/-! ### Blocks of lines -/

/-- What becomes of the line breaks at the end of a block. -/
inductive Chomp where
  /-- All are dropped. -/
  | strip
  /-- One is kept. -/
  | clip
  /-- All are kept. -/
  | keep
  deriving DecidableEq, Repr

/-- How a block is to be read. -/
structure BlockHeader where
  /-- Whether single line breaks between words stand for blanks. -/
  folded : Bool
  /-- What becomes of the line breaks at its end. -/
  chomp : Chomp := .clip
  /-- The columns by which its lines are moved in, if that is told. -/
  indent : Option Nat := none
  deriving DecidableEq, Repr

/-- What the marks of a header at the front of a text say, and what follows them. -/
def readBlockMarks (folded : Bool) (cs : List Char) : Except Fault (BlockHeader × List Char) :=
  let chompOf (c : Char) : Option Chomp :=
    if c = '+' then some .keep else if c = '-' then some .strip else none
  let indentOf (c : Char) : Option Nat := if c.isDigit then some (c.toNat - '0'.toNat) else none
  let marks : BlockHeader × List Char := match cs with
    | [] => (⟨folded, .clip, none⟩, [])
    | c :: r => match chompOf c, indentOf c with
      | some chomp, _ => match r with
        | d :: q => match indentOf d with
          | some n => (⟨folded, chomp, some n⟩, q)
          | none => (⟨folded, chomp, none⟩, r)
        | [] => (⟨folded, chomp, none⟩, r)
      | none, some n => match r with
        | d :: q => match chompOf d with
          | some chomp => (⟨folded, chomp, some n⟩, q)
          | none => (⟨folded, .clip, some n⟩, r)
        | [] => (⟨folded, .clip, some n⟩, r)
      | none, none => (⟨folded, .clip, none⟩, cs)
  if marks.1.indent = some 0 then .error .badToken else .ok marks

/-- The header of a block, and the lines that follow it. -/
def readBlockHeader (folded : Bool) (cs : List Char) : Except Fault (BlockHeader × List Char) := do
  let (header, rest) ← readBlockMarks folded cs
  if endsLine rest ∨ rest.head? = some ' ' then
    let rest := rest.dropWhile (· == ' ')
    let rest := if rest.head? = some '#' then lineEnd rest else rest
    if endsLine rest then pure (header, rest.drop 1) else .error (refusal rest)
  else .error (refusal rest)

/-- What has been read of a block. -/
structure Block where
  /-- The text of its lines, the last character first. -/
  seen : List Char := []
  /-- The line break behind its last line: none in front of the first line and at the end of the
  text. -/
  last : Option Char := none
  /-- Whether the last line begins with a word. -/
  worded : Bool := false
  /-- The breaks of the empty lines behind it, the last one first. -/
  empty : List Char := []
  deriving DecidableEq, Repr

namespace Block

/-- The block with a line begun by a character. Between two lines that begin with words a folded
break stands for a blank, or for nothing if empty lines follow it. -/
def begin (folded : Bool) (c : Char) (b : Block) : Block :=
  let worded := !isBlank c
  let glue : List Char := match b.last with
    | none => []
    | some lineBreak =>
      if folded ∧ lineBreak = '\n' ∧ b.worded ∧ worded then
        if b.empty.isEmpty then [' '] else []
      else [lineBreak]
  { seen := c :: (b.empty ++ (glue ++ b.seen)), last := none, worded, empty := [] }

/-- The text of a block with the line breaks at its end. -/
def finish (chomp : Chomp) (b : Block) : List Char :=
  let clipped := b.last.toList ++ b.seen
  match chomp with
  | .strip => b.seen.reverse
  | .clip => clipped.reverse
  | .keep => (b.empty ++ clipped).reverse

end Block

/-- The lines of a block that begin at a column, and what follows them: read on within a line, or at
the front of one behind blanks that end at a column. -/
def readLines (folded : Bool) (indent : Nat) (b : Block) : (within : Bool) → (column : Nat) →
    List Char → Block × List Char
  | _, _, [] => (b, [])
  | true, _, c :: cs =>
    if !isAdmitted c then (b, c :: cs)
    else if isBreak c then readLines folded indent { b with last := some (breakChar c) } false 0 cs
    else readLines folded indent { b with seen := c :: b.seen } true 0 cs
  | false, column, c :: cs =>
    if c = ' ' ∧ column < indent then readLines folded indent b false (column + 1) cs
    else if isBreak c then
      readLines folded indent { b with empty := breakChar c :: b.empty } false 0 cs
    else if column = indent ∧ isAdmitted c then readLines folded indent (b.begin folded c) true 0 cs
    else (b, c :: cs)

/-- The empty lines in front of a block: their breaks, the last one first, the column of the
furthest blank, the column behind the blanks of the first line that is not empty, and what follows
them. -/
def leadingLines (empty : List Char) (furthest column : Nat) :
    List Char → List Char × Nat × Nat × List Char
  | [] => (empty, furthest, column, [])
  | c :: cs =>
    if c = ' ' then leadingLines empty (max furthest (column + 1)) (column + 1) cs
    else if isBreak c then leadingLines (breakChar c :: empty) furthest 0 cs
    else (empty, furthest, column, c :: cs)

/-- A block behind the mark that begins it: its text and what follows. Its lines begin at the column
that the header tells, else at that of the first line, in no case in front of `least`. -/
def readBlock (folded : Bool) (least : Nat) (cs : List Char) :
    Except Fault (List Char × List Char) := do
  let (header, cs) ← readBlockHeader folded cs
  let (b, rest) := match header.indent with
    | some n => readLines folded (least + n - 1) {} false 0 cs
    | none =>
      let (empty, furthest, column, rest) := leadingLines [] 0 0 cs
      readLines folded (max least furthest) { empty } false column rest
  pure (b.finish header.chomp, rest)

end BranchForm.Yaml
