import BranchForm.Error
import BranchForm.Value.Members

/-!
# Looking into values

The operations of decoders on a value of unchecked kind, each with the fault it ends with when the
value is of a kind that does not have the operation.

* `Value.get` looks up an optional member, `Value.need` one that must be there, `Value.require` one
  whose absence a decoder reports;
* `Value.elements` are the values a value is made of; `Value.elementsOrNone` takes an empty value
  for none;
* `Value.contains` tests for a member, an element or a part of a text;
* `Value.asText`, `Value.asKey` and `Value.asCount` take a value for a text, for the name of a
  member and for a count; `Value.asLabel` is its text, `Value.asTexts` takes values for texts;
* `Value.sorted` sorts, or finds that two values have no order.
-/

namespace BranchForm.Value

/-- Ends with a fault. -/
def fail {α : Type} (cause : Fault) : Except Error α := .error (.fault cause)

/-- The members of a record. -/
def members? : Value → Option Members
  | .record ms => some ms
  | _ => none

/-- An optional member of a record, with a value in its stead. -/
def get (v : Value) (name : String) (alternative : Value) : Except Error Value :=
  match v with
  | .record ms => .ok (Members.getD ms name alternative)
  | _ => fail .missingOperation

/-- An optional member of a record, the empty value if it is absent. -/
def getOrNull (v : Value) (name : String) : Except Error Value := v.get name .null

/-- A member that must be there. -/
def need (v : Value) (name : String) : Except Error Value :=
  match v with
  | .record ms => match Members.get? ms name with
    | some w => .ok w
    | none => fail .missingKey
  | _ => fail .wrongKind

/-- The values of a list in rising order. -/
def sorted (vs : List Value) : Except Error (List Value) :=
  match sort? vs with
  | some ws => .ok ws
  | none => fail .wrongKind

/-- A member that a part of a stored form must have. -/
def require (v : Value) (key part : String) : Except Error Value :=
  match v with
  | .record ms => match Members.get? ms key with
    | some w => .ok w
    | none => do
      let names ← sorted (Members.names ms)
      .error (.missingMember part key names)
  | _ => fail .wrongKind

/-- The characters of a text as values. -/
def characters (s : String) : List Value := s.toList.map fun c => .text (String.singleton c)

/-- The values a value is made of: the characters of a text, the elements of a list, the names of a
record. -/
def elements : Value → Except Error (List Value)
  | .text s => .ok (characters s)
  | .list vs => .ok vs
  | .record ms => .ok (Members.names ms)
  | _ => fail .wrongKind

/-- The values a value is made of, none for a value that does not count as present. -/
def elementsOrNone (v : Value) : Except Error (List Value) :=
  if v.truthy then v.elements else .ok []

/-- Whether a text has another one as a part. -/
def hasPart (part : List Char) : List Char → Bool
  | [] => part.isEmpty
  | c :: cs => part.isPrefixOf (c :: cs) || hasPart part cs

/-- Whether a record has a member of the name, a list the name as an element, or a text the name as
a part. -/
def contains (v : Value) (name : String) : Except Error Bool :=
  match v with
  | .record ms => .ok (Members.has ms name)
  | .list vs => .ok (vs.any fun w => decide (w = .text name))
  | .text s => .ok (hasPart name.toList s.toList)
  | _ => fail .wrongKind

/-- The text of a value, which must be one. -/
def asText : Value → Except Error String
  | .text s => .ok s
  | _ => fail .missingOperation

/-- The text of a value on its own, unless it has none. -/
def asLabel (v : Value) : Except Error String :=
  if v.hasText then .ok v.display else fail .badValue

/-- A value as the name of a member. -/
def asKey (v : Value) : Except Error Value := if v.isKey then .ok v else fail .wrongKind

/-- How often something is to be done: never for a number below zero. -/
def asCount (v : Value) : Except Error Nat :=
  match v.asNumber with
  | .int n => .ok n.toNat
  | _ => fail .wrongKind

/-- Values as texts, which they must all be. -/
def asTexts (vs : List Value) : Except Error (List String) :=
  vs.mapM fun
    | .text s => .ok s
    | _ => fail .wrongKind

end BranchForm.Value
