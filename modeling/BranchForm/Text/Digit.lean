/-!
# Decimal digits

A decimal digit of any script counts as the digit of its value; the ten digits of a script are
consecutive code points.

* `digitOf` is the value of a digit;
* `numberOf` is the number that a text of digits stands for;
* `paddedDigits` writes a number in at least a given count of digits.
-/

namespace BranchForm.Text

/-- The zeros of the scripts. -/
def zeroDigits : List Nat :=
  [0x30, 0x660, 0x6F0, 0x7C0, 0x966, 0x9E6, 0xA66, 0xAE6, 0xB66, 0xBE6, 0xC66, 0xCE6, 0xD66,
   0xDE6, 0xE50, 0xED0, 0xF20, 0x1040, 0x1090, 0x17E0, 0x1810, 0x1946, 0x19D0, 0x1A80, 0x1A90,
   0x1B50, 0x1BB0, 0x1C40, 0x1C50, 0xA620, 0xA8D0, 0xA900, 0xA9D0, 0xA9F0, 0xAA50, 0xABF0,
   0xFF10, 0x104A0, 0x10D30, 0x11066, 0x110F0, 0x11136, 0x111D0, 0x112F0, 0x11450, 0x114D0,
   0x11650, 0x116C0, 0x11730, 0x118E0, 0x11950, 0x11C50, 0x11D50, 0x11DA0, 0x16A60, 0x16AC0,
   0x16B50, 0x1D7CE, 0x1D7D8, 0x1D7E2, 0x1D7EC, 0x1D7F6, 0x1E140, 0x1E2F0, 0x1E950, 0x1FBF0]

/-- The value of a decimal digit. -/
def digitOf (c : Char) : Option Nat :=
  (zeroDigits.find? fun z => z ≤ c.toNat && c.toNat < z + 10).map fun z => c.toNat - z

/-- The number that digits stand for, behind the digits of `seen`. -/
def numberFrom (seen : Nat) : List Char → Option Nat
  | [] => some seen
  | c :: cs => match digitOf c with
    | some d => numberFrom (10 * seen + d) cs
    | none => none

/-- The number that a text of at least one digit stands for. -/
def numberOf (cs : List Char) : Option Nat := if cs.isEmpty then none else numberFrom 0 cs

/-- The decimal digits of a number, with zeros in front up to a width. -/
def paddedDigits (width n : Nat) : String :=
  let ds := Nat.toDigits 10 n
  String.ofList (List.replicate (width - ds.length) '0' ++ ds)

end BranchForm.Text
