import BranchForm.Number.Shortest
import BranchForm.Value.Moment

/-!
# Dynamic values

Authors, stored forms and respondents hand over data whose kinds nobody has checked. A value of this
type is such a piece of data: what a decoder does not convert is kept as it came.

* `Value` is the type, with decidable equality; a text stands for the value that it is;
* `Members` are the members of a record in the order they were written, each under its name;
* `Value.truthy` tells empty values from the others, `Value.orElse` replaces an empty one;
* `Value.isKey` tells the values that may name a member.
-/

namespace BranchForm

/-- A piece of data of any kind. -/
inductive Value where
  /-- No value. -/
  | null
  /-- A truth value. -/
  | bool (b : Bool)
  /-- A whole number. -/
  | int (n : Int)
  /-- A number with a decimal point or an exponent. -/
  | float (x : Binary64)
  /-- A text. -/
  | text (s : String)
  /-- A day or a point in time. -/
  | moment (m : Moment)
  /-- A sequence of values. -/
  | list (items : List Value)
  /-- Values under names, in the order they were written. A name is mostly a text, but may be any
  value other than a list or a record. -/
  | record (members : List (Value × Value))
  deriving Repr, Inhabited

/-- The members of a record under their names. -/
abbrev Members := List (Value × Value)

instance : Coe String Value := ⟨Value.text⟩

namespace Value

mutual

/-- Decides whether two values are the same. -/
def decEq : (a b : Value) → Decidable (a = b)
  | .null, .null => isTrue rfl
  | .bool a, .bool b => decidable_of_iff (a = b) (by simp)
  | .int a, .int b => decidable_of_iff (a = b) (by simp)
  | .float a, .float b => decidable_of_iff (a = b) (by simp)
  | .text a, .text b => decidable_of_iff (a = b) (by simp)
  | .moment a, .moment b => decidable_of_iff (a = b) (by simp)
  | .list as, .list bs => match decEqAll as bs with
    | isTrue h => isTrue (by rw [h])
    | isFalse h => isFalse (by simp [h])
  | .record as, .record bs => match decEqMembers as bs with
    | isTrue h => isTrue (by rw [h])
    | isFalse h => isFalse (by simp [h])
  | .null, .bool _ | .null, .int _ | .null, .float _ | .null, .text _ | .null, .moment _
  | .null, .list _ | .null, .record _ | .bool _, .null | .bool _, .int _ | .bool _, .float _
  | .bool _, .text _ | .bool _, .moment _ | .bool _, .list _ | .bool _, .record _ | .int _, .null
  | .int _, .bool _ | .int _, .float _ | .int _, .text _ | .int _, .moment _ | .int _, .list _
  | .int _, .record _ | .float _, .null | .float _, .bool _ | .float _, .int _
  | .float _, .text _ | .float _, .moment _ | .float _, .list _ | .float _, .record _
  | .text _, .null | .text _, .bool _ | .text _, .int _ | .text _, .float _ | .text _, .moment _
  | .text _, .list _ | .text _, .record _ | .moment _, .null | .moment _, .bool _
  | .moment _, .int _ | .moment _, .float _ | .moment _, .text _ | .moment _, .list _
  | .moment _, .record _ | .list _, .null | .list _, .bool _ | .list _, .int _
  | .list _, .float _ | .list _, .text _ | .list _, .moment _ | .list _, .record _
  | .record _, .null | .record _, .bool _ | .record _, .int _ | .record _, .float _
  | .record _, .text _ | .record _, .moment _ | .record _, .list _ =>
    isFalse nofun

/-- Decides whether two sequences are the same. -/
def decEqAll : (as bs : List Value) → Decidable (as = bs)
  | [], [] => isTrue rfl
  | [], _ :: _ => isFalse nofun
  | _ :: _, [] => isFalse nofun
  | a :: as, b :: bs => match decEq a b, decEqAll as bs with
    | isTrue h, isTrue hs => isTrue (by rw [h, hs])
    | isFalse h, _ => isFalse (by simp [h])
    | _, isFalse hs => isFalse (by simp [hs])

/-- Decides whether two lists of members are the same, names and order included. -/
def decEqMembers : (as bs : List (Value × Value)) → Decidable (as = bs)
  | [], [] => isTrue rfl
  | [], _ :: _ => isFalse nofun
  | _ :: _, [] => isFalse nofun
  | (k, a) :: as, (l, b) :: bs => match decEq k l, decEq a b, decEqMembers as bs with
    | isTrue hk, isTrue h, isTrue hs => isTrue (by rw [hk, h, hs])
    | isFalse hk, _, _ => isFalse (by simp [hk])
    | _, isFalse h, _ => isFalse (by simp [h])
    | _, _, isFalse hs => isFalse (by simp [hs])

end

instance : DecidableEq Value := decEq

/-- Whether a value counts as present: everything does but the empty value, false, the zeros, and
empty texts, lists and records. -/
def truthy : Value → Bool
  | .null => false
  | .bool b => b
  | .int n => n != 0
  | .float x => !x.isZero
  | .text s => !s.isEmpty
  | .moment _ => true
  | .list items => !items.isEmpty
  | .record members => !members.isEmpty

/-- The value if it counts as present, else the other one. -/
def orElse (v alternative : Value) : Value := if v.truthy then v else alternative

/-- Whether a value may name a member or belong to a set: lists and records may not. -/
def isKey : Value → Bool
  | .list _ | .record _ => false
  | _ => true

/-- The name of the kind of a value, as messages give it. -/
def kindName : Value → String
  | .null => "NoneType"
  | .bool _ => "bool"
  | .int _ => "int"
  | .float _ => "float"
  | .text _ => "str"
  | .moment m => m.kindName
  | .list _ => "list"
  | .record _ => "dict"

end Value

end BranchForm
