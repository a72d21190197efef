import BranchForm.Text.Ranges

/-!
# Blank characters

Blanks are the characters that Unicode gives white space or a separating direction: the ASCII blanks
with the four information separators, the next-line and no-break characters, and the spaces and line
separators of the general punctuation blocks. The zero-width space is not one of them.

* `Char.isBlank` tests for a blank;
* `stripBlanks` removes the blanks at both ends of a text;
* `isBlankText` tests whether nothing is left.
-/

namespace BranchForm.Text

/-- The blank characters. -/
def blankRanges : CharRanges :=
  [(0x9, 0xD), (0x1C, 0x20), (0x85, 0x85), (0xA0, 0xA0), (0x1680, 0x1680), (0x2000, 0x200A),
   (0x2028, 0x2029), (0x202F, 0x202F), (0x205F, 0x205F), (0x3000, 0x3000)]

/-- Whether a character is a blank. -/
def isBlank (c : Char) : Bool := blankRanges.has c

/-- The text without the blanks at its ends. -/
def stripBlanks (cs : List Char) : List Char :=
  ((cs.dropWhile isBlank).reverse.dropWhile isBlank).reverse

/-- Whether a text holds blanks only. -/
def isBlankText (s : String) : Bool := s.toList.all isBlank

end BranchForm.Text
