import BranchForm.Yaml.Plain
import BranchForm.Number.Shortest
import BranchForm.Text.Hex

/-!
# YAML text of a record

Every member of a record and every element of a list stands on a line of its own; only empty ones
are written in brackets. The text is ASCII, and a text that has blanks is folded at one of them
where it runs past the margin.

* `Yaml.style` chooses how a text is written: without quotes if nothing but itself can be meant,
  else in single quotes if each of its characters can stand there, else in double quotes;
* `Yaml.fold` and `Yaml.foldEscaped` write and fold the characters between the quotes;
* `Yaml.writeNode` writes a value behind the mark it belongs to: a list stands directly under a
  name, a record two columns to its right, and both begin on the line of a hyphen;
* `Yaml.write` is the whole text of a record.
-/

namespace BranchForm.Yaml

/-! ### The style of a text -/

/-- How a text is written. -/
inductive Style where
  /-- Without quotes. -/
  | plain
  /-- In single quotes, where a single quote is written twice. -/
  | single
  /-- In double quotes, where characters can be escaped. -/
  | double
  deriving DecidableEq, Repr

/-- Whether two characters in a row satisfy a condition. -/
def hasPair (p : Char → Char → Bool) (cs : List Char) : Bool :=
  (cs.zip cs.tail).any fun (a, b) => p a b

/-- Whether a character can only be written with an escape. -/
def needsEscape (c : Char) : Bool := !(c == '\n' || (' ' ≤ c && c ≤ '~'))

/-- Whether every text with these characters is written in double quotes: one of them needs an
escape, or a blank stands next to a line break. -/
def needsDouble (cs : List Char) : Bool :=
  cs.any needsEscape || hasPair (fun a b => a == ' ' && b == '\n' || a == '\n' && b == ' ') cs

/-- The characters that mark something else than a text when they come first. -/
def leadingMarks : List Char :=
  ['#', ',', '[', ']', '\x7b', '\x7d', '&', '*', '!', '|', '>', '\'', '"', '%', '@', '\x60']

/-- Whether a text would be taken for markup without quotes. -/
def looksMarked (cs : List Char) : Bool :=
  ['-', '-', '-'].isPrefixOf cs || ['.', '.', '.'].isPrefixOf cs ||
  (match cs with
    | c :: r => leadingMarks.contains c ||
        ((c == '?' || c == '-') && endsWord r)
    | [] => false) ||
  cs.getLast? == some ':' || hasPair (fun a b => a == ':' && isGap b || isGap a && b == '#') cs

/-- Whether a text stands for itself without quotes. -/
def isPlain (cs : List Char) : Bool :=
  !cs.contains '\n' && cs.head? != some ' ' && cs.getLast? != some ' ' && !looksMarked cs &&
    Plain.kind cs == .text

/-- The style in which a text is written. -/
def style (cs : List Char) : Style :=
  if needsDouble cs then .double else if isPlain cs then .plain else .single

/-! ### Folded texts -/

/-- The margin: a text is folded at a blank behind this column. -/
def margin : Nat := 80

/-- A new line with the text beginning at a column. -/
def newLine (column : Nat) : List Char := '\n' :: List.replicate column ' '

/-- Whether a text goes on with anything but a given character. -/
def goesOn (c : Char) (cs : List Char) : Bool :=
  match cs with
  | [] => false
  | d :: _ => d != c

/-- The characters of a text, from a column on and with the one in front of them known. A single
blank past the margin becomes a line break; line breaks that are meant are written with one more,
since a single one would be read as a blank. -/
def fold (spell : Char → List Char) (indent : Nat) :
    (last : Char) → (column : Nat) → List Char → List Char
  | _, _, [] => []
  | last, column, c :: cs =>
    if c = '\n' then
      let breaks := if last = '\n' then ['\n'] else ['\n', '\n']
      if cs.head? = some '\n' then breaks ++ fold spell indent c 0 cs
      else breaks ++ List.replicate indent ' ' ++ fold spell indent c indent cs
    else if c = ' ' ∧ last ≠ ' ' ∧ goesOn ' ' cs ∧ margin < column then
      newLine indent ++ fold spell indent c indent cs
    else spell c ++ fold spell indent c (column + (spell c).length) cs

/-- A character in single quotes. -/
def spellSingle (c : Char) : List Char := if c = '\'' then [c, c] else [c]

/-- The letters that stand behind a backslash for a character. -/
def shortEscapes : List (Nat × Char) :=
  [(0, '0'), (7, 'a'), (8, 'b'), (9, 't'), (10, 'n'), (11, 'v'), (12, 'f'), (13, 'r'), (27, 'e'),
    (34, '"'), (92, '\\'), (0x85, 'N'), (0xA0, '_'), (0x2028, 'L'), (0x2029, 'P')]

/-- The last `width` hexadecimal digits of a number, in capital letters. -/
def capitalDigits (width n : Nat) : List Char := (Text.hexDigits width n).map Char.toUpper

/-- A character by its code point, in the shortest of three widths. -/
def escaped (c : Char) : List Char :=
  let n := c.toNat
  match shortEscapes.lookup n with
  | some letter => ['\\', letter]
  | none =>
    if n < 0x100 then '\\' :: 'x' :: capitalDigits 2 n
    else if n < 0x10000 then '\\' :: 'u' :: capitalDigits 4 n
    else '\\' :: 'U' :: capitalDigits 8 n

/-- The end of a line inside double quotes, and the begin of the next one. A blank in front of the
text that follows is escaped, since it would be dropped. -/
def continuation (indent : Nat) (next : List Char) : List Char :=
  '\\' :: newLine indent ++ (if next.head? = some ' ' then ['\\'] else [])

/-- The column behind a continuation. -/
def continuationColumn (indent : Nat) (next : List Char) : Nat :=
  if next.head? = some ' ' then indent + 1 else indent

/-- The characters of a text between double quotes, from a column on. Past the margin a line ends in
front of a blank or at an escape; `first` tells the first character and `behindEscape` one that
follows an escape. The last character is never set off. -/
def foldEscaped (indent : Nat) :
    (first behindEscape : Bool) → (column : Nat) → List Char → List Char
  | _, _, _, [] => []
  | first, behindEscape, column, c :: cs =>
    let inside := !first && !cs.isEmpty
    if needsEscape c || c = '"' || c = '\\' || c = '\n' then
      let spelled := escaped c
      let column := column + spelled.length
      if inside && margin + 1 < column then
        spelled ++ continuation indent cs ++
          foldEscaped indent false true (continuationColumn indent cs) cs
      else spelled ++ foldEscaped indent false true column cs
    else if inside && (c = ' ' || behindEscape) && margin < column then
      continuation indent (c :: cs) ++
        c :: foldEscaped indent false false (continuationColumn indent (c :: cs) + 1) cs
    else c :: foldEscaped indent false false (column + 1) cs

/-- A text in its style, from a column on; the lines that continue it begin at `indent`. -/
def writeText (indent column : Nat) (cs : List Char) : List Char :=
  match style cs with
  | .plain => fold (fun c => [c]) indent ' ' column cs
  | .single => '\'' :: fold spellSingle indent ' ' (column + 1) cs ++ ['\'']
  | .double => '"' :: foldEscaped indent true false (column + 1) cs ++ ['"']

/-- A text in its style on a single line. -/
def writeName (cs : List Char) : List Char :=
  match style cs with
  | .plain => cs
  | .single => '\'' :: cs.flatMap spellSingle ++ ['\'']
  | .double => '"' :: (cs.flatMap fun c =>
      if needsEscape c || c = '"' || c = '\\' then escaped c else [c]) ++ ['"']

/-- Whether a name is short enough to stand in front of a colon. -/
def isShortName (cs : List Char) : Bool := !cs.isEmpty && !cs.any isBreak && cs.length < 123

/-! ### Values -/

/-- A number; its digits have a point also where an exponent follows. -/
def writeFloat (x : Binary64) : List Char :=
  match x with
  | .infinite true => "-.inf".toList
  | .infinite false => ".inf".toList
  | .nan => ".nan".toList
  | x =>
    let cs := x.text.toList
    if cs.contains '.' then cs
    else cs.flatMap fun c => if c = 'e' then ['.', '0', 'e'] else [c]

/-- The text of a value that has no parts and is no text itself. -/
def writeAtom : Value → List Char
  | .null => "null".toList
  | .bool true => "true".toList
  | .bool false => "false".toList
  | .float x => writeFloat x
  | v => v.display.toList

/-- The mark that a value stands behind. -/
inductive Mark where
  /-- A name with its colon: a list or a record begins on the next line. -/
  | name
  /-- A hyphen or a colon alone: a list or a record begins on the same line. -/
  | lone
  deriving DecidableEq, Repr

/-- The column at which the elements of a list begin whose mark belongs to a level. -/
def Mark.listLevel (mark : Mark) (level : Nat) : Nat :=
  match mark with
  | .name => level
  | .lone => level + 2

/-- What stands between a mark and the first element, which begins at a column. -/
def Mark.lead (mark : Mark) (column : Nat) : List Char :=
  match mark with
  | .name => newLine column
  | .lone => [' ']

/-- How a member of a record begins at a level: the text up to the mark of its value, the mark, and
the column behind it. A long name, an empty one or one with line breaks is set off by a question
mark. -/
def memberHead (level : Nat) (name : Value) : List Char × Mark × Nat :=
  let short (spelled : List Char) : List Char × Mark × Nat :=
    (spelled ++ [':'], .name, level + spelled.length + 1)
  match name with
  | .text name =>
    let cs := name.toList
    if isShortName cs then short (writeName cs)
    else
      ('?' :: ' ' :: writeText (level + 2) (level + 2) cs ++ newLine level ++ [':'], .lone,
        level + 1)
  | name => short (writeAtom name)

mutual

/-- A value behind a mark that ends in front of a column and belongs to the elements at a level. -/
def writeNode (mark : Mark) (level column : Nat) : Value → List Char
  | .text s => ' ' :: writeText (level + 2) (column + 1) s.toList
  | .list [] => [' ', '[', ']']
  | .list (v :: vs) =>
    let inner := mark.listLevel level
    mark.lead inner ++ '-' :: writeNode .lone inner (inner + 1) v ++ writeItems inner vs
  | .record [] => [' ', '\x7b', '\x7d']
  | .record ((k, v) :: ms) =>
    let inner := level + 2
    let (head, own, column) := memberHead inner k
    mark.lead inner ++ head ++ writeNode own inner column v ++ writeMembers inner ms
  | v => ' ' :: writeAtom v

/-- The elements of a list, each on a new line. -/
def writeItems (level : Nat) : List Value → List Char
  | [] => []
  | v :: vs => newLine level ++ '-' :: writeNode .lone level (level + 1) v ++ writeItems level vs

/-- The members of a record, each on a new line. -/
def writeMembers (level : Nat) : List (Value × Value) → List Char
  | [] => []
  | (k, v) :: ms =>
    let (head, own, column) := memberHead level k
    newLine level ++ head ++ writeNode own level column v ++ writeMembers level ms

end

/-- The text of a record. -/
def write (ms : Members) : String :=
  match ms with
  | [] => "\x7b\x7d\n"
  | ms => String.ofList ((writeMembers 0 ms).drop 1 ++ ['\n'])

end BranchForm.Yaml
