import BranchForm.Text.Hex
import BranchForm.Value.Access

/-!
# JSON text of a value

The text is ASCII: every other character is escaped by its UTF-16 units. Without an indentation a
text is one line with a space behind commas and colons; with one, every element stands on a line of
its own.

* `Json.Layout` says how elements are set apart, `Json.Layout.ofIndent` takes it from a caller;
* `Json.quote` is a text as a JSON string, `Json.memberName` the text of a name;
* `Json.write` is the text of a value in a layout.
-/

namespace BranchForm.Json

open BranchForm.Text (hexDigits)

/-- How the elements of lists and records are set apart. -/
structure Layout where
  /-- What a line begins with for each level, or none for a single line. -/
  indent : Option String := none
  deriving DecidableEq, Repr, Inhabited

/-- The layout that a caller asks for: a single line, or lines that begin with a text or a number of
blanks for each level. -/
def Layout.ofIndent (v : Value) : Except Error Layout :=
  match v with
  | .null => .ok {}
  | .text s => .ok { indent := some s }
  | v => do
    let n ← v.asCount
    pure { indent := some (String.ofList (List.replicate n ' ')) }

/-- One UTF-16 unit as an escape. -/
def escapeUnit (n : Nat) : List Char := '\\' :: 'u' :: hexDigits 4 n

/-- One character inside a JSON string. -/
def escapeChar (c : Char) : List Char :=
  if c = '"' then ['\\', '"']
  else if c = '\\' then ['\\', '\\']
  else if c = '\n' then ['\\', 'n']
  else if c = '\r' then ['\\', 'r']
  else if c = '\t' then ['\\', 't']
  else if c = Char.ofNat 8 then ['\\', 'b']
  else if c = Char.ofNat 12 then ['\\', 'f']
  else
    let n := c.toNat
    if 32 ≤ n ∧ n < 127 then [c]
    else if n < 0x10000 then escapeUnit n
    else escapeUnit (0xD800 + (n - 0x10000) / 0x400) ++ escapeUnit (0xDC00 + (n - 0x10000) % 0x400)

/-- A text as a JSON string. -/
def quote (s : String) : List Char := '"' :: s.toList.flatMap escapeChar ++ ['"']

/-- The text of a number that is not an integer. -/
def writeFloat : Binary64 → List Char
  | .infinite true => "-Infinity".toList
  | .infinite false => "Infinity".toList
  | .nan => "NaN".toList
  | x => x.text.toList

/-- The text of a name: a value that is no text is named by its own JSON text. -/
def memberName : Value → String
  | .text s => s
  | .null => "null"
  | .bool b => if b then "true" else "false"
  | .float x => String.ofList (writeFloat x)
  | v => v.display

namespace Layout

/-- What stands before the first element at a level, and after the last one at the level above. -/
def lineBreak (layout : Layout) (level : Nat) : List Char :=
  match layout.indent with
  | none => []
  | some indent => '\n' :: (List.replicate level indent.toList).flatten

/-- What stands between two elements at a level. -/
def comma (layout : Layout) (level : Nat) : List Char :=
  match layout.indent with
  | none => [',', ' ']
  | some _ => ',' :: layout.lineBreak level

end Layout

mutual

/-- The text of a value whose elements stand at the level below `level`. -/
def writeAt (layout : Layout) (level : Nat) : Value → List Char
  | .null => "null".toList
  | .bool true => "true".toList
  | .bool false => "false".toList
  | .int n => (toString n).toList
  | .float x => writeFloat x
  | .text s => quote s
  | .moment m => quote m.display
  | .list [] => ['[', ']']
  | .list (v :: vs) =>
    '[' :: layout.lineBreak (level + 1) ++ writeAt layout (level + 1) v ++
      writeItems layout (level + 1) vs ++ layout.lineBreak level ++ [']']
  | .record [] => ['\x7b', '\x7d']
  | .record ((k, v) :: ms) =>
    '\x7b' :: layout.lineBreak (level + 1) ++ quote (memberName k) ++ [':', ' '] ++
      writeAt layout (level + 1) v ++ writeMembers layout (level + 1) ms ++
      layout.lineBreak level ++ ['\x7d']

/-- The further elements of a list, each behind its comma. -/
def writeItems (layout : Layout) (level : Nat) : List Value → List Char
  | [] => []
  | v :: vs => layout.comma level ++ writeAt layout level v ++ writeItems layout level vs

/-- The further members of a record, each behind its comma. -/
def writeMembers (layout : Layout) (level : Nat) : List (Value × Value) → List Char
  | [] => []
  | (k, v) :: ms =>
    layout.comma level ++ quote (memberName k) ++ [':', ' '] ++ writeAt layout level v ++
      writeMembers layout level ms

end

/-- The JSON text of a value. -/
def write (layout : Layout) (v : Value) : String := String.ofList (writeAt layout 0 v)

end BranchForm.Json
