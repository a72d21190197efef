import BranchForm.Number.Binary64

/-!
# Shortest decimal text of a number

The text of a number is the fewest decimal digits that read back as that number, and of those the
digits nearest to it.

* `Binary64.shortest` finds the digits with their power of ten;
* `Binary64.digitsAt` tries one count of digits: the two neighbours of the value on that decimal
  grid are the only candidates, because the numbers that read back form an interval around the
  value;
* `Binary64.text` lays the digits out: positional between `10 ^ -4` and `10 ^ 16`, with an exponent
  of at least two digits outside.
-/

namespace BranchForm.Binary64

/-- The least power of ten above `num / den`, as its exponent. -/
def decimalPoint (num den : Nat) : Int :=
  let guess : Int := ((Nat.toDigits 10 num).length : Int) - (Nat.toDigits 10 den).length
  let (n, d) := scale 10 (-guess) num den
  if d ≤ n then guess + 1 else guess

/-- The nearest multiple of the power of ten that leaves `count` digits and reads back as `target`,
if there is one. -/
def digitsAt (target : Binary64) (num den count : Nat) : Option (Nat × Int) :=
  let power := decimalPoint num den - count
  let (n, d) := scale 10 (-power) num den
  let low := n / d
  let lowReads := ofDecimal false low power == target
  let highReads := ofDecimal false (low + 1) power == target
  let rest := n % d
  if lowReads && (!highReads || 2 * rest < d || (2 * rest == d && low % 2 == 0)) then
    some (low, power)
  else if highReads then some (low + 1, power)
  else none

/-- The digits and the power of ten of the shortest decimal that reads back as `m * 2 ^ e`.
Seventeen digits always suffice; the exact expansion stands behind them. -/
def shortest (m : Nat) (e : Int) : Nat × Int :=
  let (num, den) := scale 2 e m 1
  match (List.range 17).findSome? fun k => digitsAt (.finite false m e) num den (k + 1) with
  | some found => found
  | none => match e with
    | .ofNat k => (m * Nat.pow 2 k, 0)
    | .negSucc k => (m * Nat.pow 5 (k + 1), -(k + 1 : Int))

/-- The digits without the zeros at their end. -/
def trimZeros (ds : List Char) : List Char := (ds.reverse.dropWhile (· == '0')).reverse

/-- Digits in front of a decimal point that stands `point` places after the first. -/
def positional (ds : List Char) (point : Int) : List Char :=
  if point ≤ 0 then '0' :: '.' :: (List.replicate (-point).toNat '0' ++ ds)
  else
    let k := point.toNat
    if ds.length ≤ k then ds ++ List.replicate (k - ds.length) '0' ++ ['.', '0']
    else ds.take k ++ '.' :: ds.drop k

/-- One digit, the others behind a point, and the exponent with its sign and at least two digits. -/
def scientific (ds : List Char) (point : Int) : List Char :=
  let exponent := point - 1
  ds.take 1 ++ (if ds.length ≤ 1 then [] else '.' :: ds.drop 1) ++
    'e' :: (if exponent < 0 then '-' else '+') :: (Text.paddedDigits 2 exponent.natAbs).toList

/-- The shortest text of a number that reads back as it. -/
def text : Binary64 → String
  | .finite s m e =>
    let body :=
      if m = 0 then ['0', '.', '0']
      else
        let (digits, power) := shortest m e
        let all := Nat.toDigits 10 digits
        let point : Int := all.length + power
        let ds := trimZeros all
        if -4 < point ∧ point ≤ 16 then positional ds point else scientific ds point
    (if s then "-" else "") ++ String.ofList body
  | .infinite s => if s then "-inf" else "inf"
  | .nan => "nan"

end BranchForm.Binary64
