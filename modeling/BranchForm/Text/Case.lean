import BranchForm.Text.LowerTable

/-!
# Letter case

* `lower` writes a text in small letters. A capital has one small letter, but for two cases: the
  dotted capital i becomes an i with a combining dot, and a capital sigma at the end of a word
  becomes the final sigma;
* `capitals` writes a text in capitals as far as they are letters of ASCII, which is what is needed
  to compare it with names spelled in ASCII.
-/

namespace BranchForm.Text

/-- The small letter of a character that has exactly one, else the character. -/
def smallLetter (c : Char) : Char :=
  let n := c.toNat
  if n < 128 then
    if 65 ≤ n && n ≤ 90 then Char.ofNat (n + 32) else c
  else
    match lowerRuns.find? (·.has n) with
    | some r => Char.ofNat ((n : Int) + r.shift).toNat
    | none => c

/-- Whether a sigma ends its word: a letter comes before it and none after it, marks left aside.
`before` holds the preceding characters, the nearest first. -/
def endsWord (before after : List Char) : Bool :=
  let isMark := caseIgnorableRanges.has
  match before.dropWhile isMark with
  | [] => false
  | p :: _ => casedRanges.has p && match after.dropWhile isMark with
    | [] => true
    | n :: _ => !casedRanges.has n

/-- The small letters of one character in its context. -/
def lowerIn (before : List Char) (c : Char) (after : List Char) : List Char :=
  if c = 'Σ' then [if endsWord before after then 'ς' else 'σ']
  else if c = 'İ' then ['i', Char.ofNat 0x307]
  else [smallLetter c]

/-- A text in small letters, after the characters `before`. -/
def lowerFrom (before : List Char) : List Char → List Char
  | [] => []
  | c :: cs => lowerIn before c cs ++ lowerFrom (c :: before) cs

/-- A text in small letters. -/
def lower (s : String) : String := String.ofList (lowerFrom [] s.toList)

/-- The capitals of a character where they are letters of ASCII, else the character. -/
def asciiCapitals (c : Char) : List Char :=
  if 97 ≤ c.toNat ∧ c.toNat ≤ 122 then [Char.ofNat (c.toNat - 32)]
  else match c.toNat with
    | 0xDF => ['S', 'S']
    | 0x131 => ['I']
    | 0x17F => ['S']
    | 0xFB00 => ['F', 'F']
    | 0xFB01 => ['F', 'I']
    | 0xFB02 => ['F', 'L']
    | 0xFB03 => ['F', 'F', 'I']
    | 0xFB04 => ['F', 'F', 'L']
    | 0xFB05 => ['S', 'T']
    | 0xFB06 => ['S', 'T']
    | _ => [c]

/-- A text in capitals, as far as they are letters of ASCII. -/
def capitals (s : String) : String := String.ofList (s.toList.flatMap asciiCapitals)

end BranchForm.Text
