import BranchForm.Text.Hex
import BranchForm.Text.Unprintable

/-!
# Quoted text

A text is shown in messages between quotes: single ones, unless it holds a single quote and no
double one. The quote in use and the backslash are escaped, and so is every character without a
printed form.

* `quoted` is the quoted text;
* `quotedAscii` escapes every character beyond ASCII as well.
-/

namespace BranchForm.Text

/-- A character by its code point, in the shortest of three widths. -/
def escapedPoint (c : Char) : List Char :=
  let n := c.toNat
  if n < 0x100 then '\\' :: 'x' :: hexDigits 2 n
  else if n < 0x10000 then '\\' :: 'u' :: hexDigits 4 n
  else '\\' :: 'U' :: hexDigits 8 n

/-- One character of a quoted text. -/
def quotedChar (quote c : Char) : List Char :=
  if c = quote ∨ c = '\\' then ['\\', c]
  else if c = '\t' then ['\\', 't']
  else if c = '\n' then ['\\', 'n']
  else if c = '\r' then ['\\', 'r']
  else if isUnprintable c then escapedPoint c
  else [c]

/-- The quote a text is shown in. -/
def quoteFor (cs : List Char) : Char :=
  if cs.contains '\'' && !cs.contains '"' then '"' else '\''

/-- The characters of a quoted text. -/
def quotedChars (cs : List Char) : List Char :=
  let quote := quoteFor cs
  quote :: cs.flatMap (quotedChar quote) ++ [quote]

/-- A text between quotes. -/
def quoted (s : String) : String := String.ofList (quotedChars s.toList)

/-- A text between quotes, in ASCII. -/
def quotedAscii (s : String) : String :=
  String.ofList ((quotedChars s.toList).flatMap fun c =>
    if c.toNat < 128 then [c] else escapedPoint c)

end BranchForm.Text
