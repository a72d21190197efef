import BranchForm.Error

/-!
# Lines of a YAML text

A line ends at a line feed, a next-line character, a line separator or a paragraph separator. The
last two keep their form when a text goes on behind them; the others are read as a line feed.

* `Yaml.isBreak` recognises the ends of lines, `Yaml.isBlank` the blanks within one;
* `Yaml.breakChar` is the character a line break is read as;
* `Yaml.endsWord` tells whether a word ends in front of a text, `Yaml.separates` whether the next
  document is set off there;
* `Yaml.isAdmitted` recognises the characters that a document may hold, and `Yaml.refusal` tells why
  reading stops in front of a text. A character that no document may hold matters only where reading
  comes to it: what stands in front of it is read as ever.
-/

namespace BranchForm.Yaml

/-- Whether a line ends with a character. -/
def isBreak (c : Char) : Bool :=
  c == '\n' || c.toNat == 0x85 || c.toNat == 0x2028 || c.toNat == 0x2029

/-- Whether a character is a blank of a line. -/
def isBlank (c : Char) : Bool := c == ' ' || c == '\t'

/-- The character that the end of a line is read as. -/
def breakChar (c : Char) : Char := if c.toNat = 0x85 then '\n' else c

/-- Whether a character may stand in a document. -/
def isAdmitted (c : Char) : Bool :=
  let n := c.toNat
  n == 9 || n == 10 || n == 13 || (32 ≤ n && n < 127) || n == 0x85 ||
    (0xA0 ≤ n && n ≤ 0xFFFD) || 0x10000 ≤ n

/-- Whether a text begins with a character that no document may hold. -/
def isBarred : List Char → Bool
  | [] => false
  | c :: _ => !isAdmitted c

/-- Why reading stops in front of a text: no document may hold the character there, or it has no
place there. -/
def refusal (cs : List Char) : Fault := if isBarred cs then .badCharacter else .badToken

/-- Whether a character is a blank or ends a line. -/
def isGap (c : Char) : Bool := isBlank c || isBreak c

/-- Whether a word ends in front of a text. -/
def endsWord : List Char → Bool
  | [] => true
  | c :: _ => isGap c

/-- Whether a document is set off at the front of a line by three times a character. Three
characters are looked at to know that, and the one behind them if they are the mark. -/
def isRule (mark : Char) (cs : List Char) : Except Fault Bool :=
  if !(cs.take 3).all isAdmitted then .error .badCharacter
  else match cs with
    | a :: b :: c :: cs =>
      if a = mark ∧ b = mark ∧ c = mark then
        if isBarred cs then .error .badCharacter else .ok (endsWord cs)
      else .ok false
    | _ => .ok false

/-- Whether a document begins or ends at the front of a line. -/
def separates (cs : List Char) : Except Fault Bool := do
  let begins ← isRule '-' cs
  let ends ← isRule '.' cs
  pure (begins || ends)

/-- Whether a line is over in front of a text. -/
def endsLine : List Char → Bool
  | [] => true
  | c :: _ => isBreak c

/-- What is left of a text at the end of its first line, or at a character that no document may
hold. -/
def lineEnd (cs : List Char) : List Char := cs.dropWhile fun c => !isBreak c && isAdmitted c

end BranchForm.Yaml
