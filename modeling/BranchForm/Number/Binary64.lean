import BranchForm.Text.Digit

/-!
# Binary64 numbers in exact arithmetic

A number of the IEEE 754 binary64 format is kept as sign, significand and exponent, so that reading
and comparing need natural numbers and integers only.

* `Binary64` is the type; `Binary64.ofRatio` rounds a quotient to the nearest number of the format,
  a tie to the even significand, so every number has one representation;
* `Binary64.ofDecimal` reads decimal digits with a power of ten;
* `Binary64.fraction` is the exact value of a finite number as an integer over a natural number;
* `Binary64.times` and `Binary64.plus` round the exact product and sum;
* `Binary64.fixed` writes a number with a given count of decimal places.
-/

namespace BranchForm

/-- A binary64 number. The value of `finite s m e` is `m * 2 ^ e`, negated when `s` holds. -/
inductive Binary64 where
  /-- Sign, significand below `2 ^ 53`, and exponent of a finite number. -/
  | finite (negative : Bool) (significand : Nat) (exponent : Int)
  /-- Positive or negative infinity. -/
  | infinite (negative : Bool)
  /-- The result of an undefined operation. -/
  | nan
  deriving DecidableEq, Repr, Inhabited

namespace Binary64

/-- The quotient rounded to the nearest natural number, a half to the even neighbour. -/
def roundDiv (num den : Nat) : Nat :=
  let q := num / den
  let r := num % den
  if 2 * r < den then q
  else if den < 2 * r then q + 1
  else if q % 2 = 0 then q else q + 1

/-- Multiply a fraction by a power of two or of another base, in lowest growth: positive powers go
to the numerator, negative ones to the denominator. -/
def scale (base : Nat) (power : Int) (num den : Nat) : Nat × Nat :=
  match power with
  | .ofNat k => (num * base.pow k, den)
  | .negSucc k => (num, den * base.pow (k + 1))

/-- The exponent at which `num / den` has a significand of 53 bits, or the least exponent of the
format if that is larger. -/
def exponentFor (num den : Nat) : Int :=
  let guess : Int := (Nat.log2 num : Int) - Nat.log2 den - 52
  let (n, d) := scale 2 (-guess) num den
  let exact := if n < d * Nat.pow 2 52 then guess - 1 else guess
  max exact (-1074)

/-- The number of the format nearest to `num / den`, a tie going to the even significand. -/
def ofRatio (negative : Bool) (num den : Nat) : Binary64 :=
  if num = 0 then .finite negative 0 0
  else
    let e := exponentFor num den
    let (n, d) := scale 2 (-e) num den
    let m := roundDiv n d
    let (m, e) := if m = Nat.pow 2 53 then (Nat.pow 2 52, e + 1) else (m, e)
    if m = 0 then .finite negative 0 0
    else if e > 971 then .infinite negative
    else .finite negative m e

/-- The number nearest to `digits * 10 ^ power`. Powers far outside the range of the format are
answered without computing them. -/
def ofDecimal (negative : Bool) (digits : Nat) (power : Int) : Binary64 :=
  if digits = 0 then .finite negative 0 0
  else
    let size : Int := (Nat.toDigits 10 digits).length + power
    if size > 320 then .infinite negative
    else if size < -340 then .finite negative 0 0
    else
      let (n, d) := scale 10 power digits 1
      ofRatio negative n d

/-- The number nearest to an integer. -/
def ofInt (n : Int) : Binary64 := ofRatio (decide (n < 0)) n.natAbs 1

/-- The exact value of a finite number, as an integer over a positive natural number. -/
def fraction : Binary64 → Option (Int × Nat)
  | .finite s m e =>
    let (n, d) := scale 2 e m 1
    some (if s then -(n : Int) else n, d)
  | _ => none

/-- Neither zero has a truth value, every other number has. -/
def isZero : Binary64 → Bool
  | .finite _ m _ => m == 0
  | _ => false

/-- Whether a number is exactly the integer `n`. -/
def isInt (x : Binary64) (n : Int) : Bool :=
  match x.fraction with
  | some (p, q) => p == n * q
  | none => false

/-- Whether a number is below an integer. -/
def isBelow (x : Binary64) (n : Int) : Bool :=
  match x with
  | .nan => false
  | .infinite s => s
  | x => match x.fraction with
    | some (p, q) => decide (p < n * q)
    | none => false

/-- Whether a number is above an integer. -/
def isAbove (x : Binary64) (n : Int) : Bool :=
  match x with
  | .nan => false
  | .infinite s => !s
  | x => match x.fraction with
    | some (p, q) => decide (n * q < p)
    | none => false

/-- Whether two numbers have the same value: the zeros agree, an undefined result agrees with
nothing. -/
def agrees (x y : Binary64) : Bool :=
  match x, y with
  | .nan, _ => false
  | _, .nan => false
  | x, y => (x.isZero && y.isZero) || x == y

/-- Whether one number is below another; an undefined result is below nothing. -/
def less : Binary64 → Binary64 → Bool
  | .nan, _ => false
  | _, .nan => false
  | .infinite s, .infinite t => s && !t
  | .infinite s, _ => s
  | _, .infinite t => !t
  | x, y => match x.fraction, y.fraction with
    | some (p, q), some (r, s) => decide (p * s < r * q)
    | _, _ => false

/-- The number of the other sign. -/
def negate : Binary64 → Binary64
  | .finite s m e => .finite (!s) m e
  | .infinite s => .infinite (!s)
  | .nan => .nan

/-- The number nearest to a multiple of a number, with the sign of the number. -/
def times (x : Binary64) (n : Nat) : Binary64 :=
  match x, x.fraction with
  | .finite s _ _, some (p, q) => ofRatio s (p.natAbs * n) q
  | _, _ => x

/-- The number nearest to the sum of two numbers, where an undefined result and an infinity stay
what they are. -/
def plus (x y : Binary64) : Binary64 :=
  match x.fraction, y.fraction with
  | some (p, q), some (r, s) =>
    let sum := p * s + r * q
    ofRatio (decide (sum < 0)) sum.natAbs (q * s)
  | some _, none => y
  | none, _ => x

/-- A finite number with `places` decimal places, a half in the last place going to the even digit.
-/
def fixed (places : Nat) : Binary64 → String
  | .finite s m e =>
    let (n, d) := scale 2 e m 1
    let units := roundDiv (n * Nat.pow 10 places) d
    let ds := (Text.paddedDigits (places + 1) units).toList
    let whole := ds.take (ds.length - places)
    let part := ds.drop (ds.length - places)
    (if s then "-" else "") ++ String.ofList whole ++
      (if places = 0 then "" else "." ++ String.ofList part)
  | .infinite s => if s then "-inf" else "inf"
  | .nan => "nan"

end Binary64

end BranchForm
