import BranchForm.Text.Digit

/-!
# Padding of texts

A field of a template may ask for a width, a side and a fill character, and may cut its text.

* `Padding` is such a request and `Padding.apply` carries it out;
* `Padding.ofSpec?` reads it: fill and side, a leading zero as fill, width, and precision behind a
  point, all optional and in this order, and at last the letter `s`.
-/

namespace BranchForm.Text

/-- The side of a field on which its text stands. -/
inductive Side where
  /-- The text stands on the left. -/
  | left
  /-- The text stands on the right. -/
  | right
  /-- The text stands in the middle, one nearer to the left if need be. -/
  | centre
  deriving DecidableEq, Repr

/-- A request for the form of a text. -/
structure Padding where
  /-- The character that fills the width. -/
  fill : Char := ' '
  /-- Where the text stands. -/
  side : Side := .left
  /-- The least number of characters. -/
  width : Nat := 0
  /-- The greatest number of characters taken from the text. -/
  limit : Option Nat := none
  deriving DecidableEq, Repr

/-- The text cut and filled as asked for. -/
def Padding.apply (p : Padding) (cs : List Char) : List Char :=
  let shown := match p.limit with
    | some n => cs.take n
    | none => cs
  let gap := p.width - shown.length
  let before := match p.side with
    | .left => 0
    | .right => gap
    | .centre => gap / 2
  List.replicate before p.fill ++ shown ++ List.replicate (gap - before) p.fill

/-- The largest width or precision that is admitted. -/
def largestSize : Nat := Nat.pow 2 63 - 1

/-- The digits at the front of a text as a number, and what follows them. -/
def leadingNumber (cs : List Char) : Option Nat × List Char :=
  let ds := cs.takeWhile fun c => (digitOf c).isSome
  (numberOf ds, cs.drop ds.length)

/-- A side by its sign, where texts have it: the sign for filling behind a numeral's sign is none of
them. -/
def Side.ofSign? : Char → Option (Option Side)
  | '<' => some (some .left)
  | '>' => some (some .right)
  | '^' => some (some .centre)
  | '=' => some none
  | _ => none

/-- The request without its fill and side, and whether they were given. -/
def fillAndSide (cs : List Char) : Option Char × Option (Option Side) × List Char :=
  match cs with
  | f :: a :: r => match Side.ofSign? a with
    | some side => (some f, some side, r)
    | none => match Side.ofSign? f with
      | some side => (none, some side, a :: r)
      | none => (none, none, cs)
  | [a] => match Side.ofSign? a with
    | some side => (none, some side, [])
    | none => (none, none, cs)
  | [] => (none, none, [])

/-- The precision behind a point, if there is one, and what follows it. -/
def precisionPart (cs : List Char) : Option (Option Nat × List Char) :=
  match cs with
  | '.' :: r => match leadingNumber r with
    | (some n, t) => if n ≤ largestSize then some (some n, t) else none
    | (none, _) => none
  | _ => some (none, cs)

/-- Reads a request; signs, thousands separators and the letters for numbers are refused. -/
def Padding.ofSpec? (cs : List Char) : Option Padding := do
  let (fill, side, r) := fillAndSide cs
  let (fill, r) := match fill, r with
    | none, '0' :: t => (some '0', t)
    | fill, r => (fill, r)
  let (width, r) := leadingNumber r
  let width := width.getD 0
  let (limit, r) ← precisionPart r
  let side ← side.getD (some .left)
  if width ≤ largestSize ∧ (r = [] ∨ r = ['s']) then
    pure { fill := fill.getD ' ', side, width, limit }
  else none

end BranchForm.Text
