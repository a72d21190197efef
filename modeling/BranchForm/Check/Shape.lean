import BranchForm.Check.Report
import BranchForm.Value.Members

/-!
# The shape of a stored form

Before a stored form is decoded its record is compared with the shape of a step graph: which kinds
of value may stand where, and which members must be there.

* `Shape` lists the places of a stored form that have a shape of their own; `Shape.kinds`,
  `Shape.required`, `Shape.member?` and `Shape.item?` say what stands there;
* `Shape.violations` lists where a value departs from its shape;
* `checkShape` reports them, sorted by their paths.
-/

namespace BranchForm

/-- The kinds of value that shapes tell apart. -/
inductive ShapeKind where
  /-- A record. -/
  | object
  /-- A list. -/
  | array
  /-- A text. -/
  | string
  /-- A truth value. -/
  | boolean
  /-- No value. -/
  | null
  deriving DecidableEq, Repr

namespace ShapeKind

/-- The name of a kind. -/
def name : ShapeKind → String
  | .object => "object"
  | .array => "array"
  | .string => "string"
  | .boolean => "boolean"
  | .null => "null"

/-- Whether a value is of a kind. -/
def has : ShapeKind → Value → Bool
  | .object, .record _ => true
  | .array, .list _ => true
  | .string, .text _ => true
  | .boolean, .bool _ => true
  | .null, .null => true
  | _, _ => false

end ShapeKind

/-- The places of a stored form that have a shape. -/
inductive Shape where
  /-- The form itself. -/
  | form
  /-- The steps of a form. -/
  | steps
  /-- The settings of a form. -/
  | settings
  /-- A step. -/
  | step
  /-- The fields of a step. -/
  | fields
  /-- The conditions of a step. -/
  | conditions
  /-- A field. -/
  | field
  /-- The choices of a field. -/
  | choices
  /-- The sub-fields of a field. -/
  | subFields
  /-- A choice. -/
  | choice
  /-- A condition. -/
  | condition
  /-- A text. -/
  | text
  /-- A text that may be absent. -/
  | optionalText
  /-- A mark. -/
  | mark
  deriving DecidableEq, Repr

namespace Shape

/-- The kinds of value that may stand in a place. -/
def kinds : Shape → List ShapeKind
  | .form | .settings | .step | .field | .choice | .condition => [.object]
  | .steps | .fields => [.array]
  | .conditions | .choices | .subFields => [.array, .null]
  | .text => [.string]
  | .optionalText => [.string, .null]
  | .mark => [.boolean]

/-- The members that a record in a place must have. -/
def required : Shape → List String
  | .form => ["steps"]
  | .step => ["stepId", "title", "fields"]
  | .field => ["fieldId", "type", "label"]
  | .choice => ["optionId", "label", "value"]
  | .condition => ["fieldId", "value", "nextStepId"]
  | _ => []

/-- The shape of a member. -/
def member? : Shape → String → Option Shape
  | .form, "name" | .form, "description" => some .text
  | .form, "steps" => some .steps
  | .form, "settings" => some .settings
  | .settings, "successMessage" => some .text
  | .step, "stepId" | .step, "title" => some .text
  | .step, "fields" => some .fields
  | .step, "isLastStep" => some .mark
  | .step, "nextStepCondition" => some .conditions
  | .field, "fieldId" | .field, "type" | .field, "label" => some .text
  | .field, "required" => some .mark
  | .field, "options" => some .choices
  | .field, "subFields" => some .subFields
  | .choice, "optionId" | .choice, "label" | .choice, "value" => some .text
  | .choice, "imageUrl" | .choice, "nextFieldId" | .choice, "nextStepId" => some .optionalText
  | .condition, "fieldId" | .condition, "value" | .condition, "nextStepId" => some .text
  | _, _ => none

/-- The shape of a member under a name of any kind, with the name: only texts name one. -/
def memberOf? (shape : Shape) : Value → Option (String × Shape)
  | .text name => (shape.member? name).map fun inner => (name, inner)
  | _ => none

/-- The shape of the elements of a list. -/
def item? : Shape → Option Shape
  | .steps => some .step
  | .fields | .subFields => some .field
  | .conditions => some .condition
  | .choices => some .choice
  | _ => none

end Shape

/-- One step of a path into a value. -/
inductive Place where
  /-- The member of a name. -/
  | member (name : String)
  /-- The element of a number. -/
  | element (index : Nat)
  deriving DecidableEq, Repr

namespace Place

/-- A step of a path as it is shown. -/
def display : Place → String
  | .member name => name
  | .element index => toString index

/-- Whether one step comes before another, or is the same: numbers by size, names by characters. -/
def le : Place → Place → Bool
  | .element m, .element n => m ≤ n
  | .member a, .member b => decide (a ≤ b)
  | .element _, .member _ => true
  | .member _, .element _ => false

end Place

/-- A departure of a value from its shape. -/
structure Violation where
  /-- Where it was found. -/
  path : List Place
  /-- What was found. -/
  message : String
  deriving DecidableEq, Repr

namespace Violation

/-- Whether one path comes before another, or is the same: a path comes before its continuations. -/
def pathLe : List Place → List Place → Bool
  | [], _ => true
  | _ :: _, [] => false
  | p :: ps, q :: qs => if p = q then pathLe ps qs else p.le q

/-- A violation in words. -/
def words (v : Violation) : String :=
  let place := if v.path.isEmpty then "<root>" else "/".intercalate (v.path.map Place.display)
  place ++ ": " ++ v.message

end Violation

/-- The violations at a place itself: a kind that may not stand there, members that are missing. -/
def localViolations (shape : Shape) (path : List Place) (v : Value) : List Violation :=
  (if shape.kinds.any fun k => k.has v then []
    else [⟨path, v.literal ++ " is not of type " ++
      ", ".intercalate (shape.kinds.map fun k => Text.quoted k.name)⟩]) ++
  (match v with
    | .record ms => (shape.required.filter fun name => !Members.has ms (.text name)).map fun name =>
      ⟨path, Text.quoted name ++ " is a required property"⟩
    | _ => [])

mutual

/-- The violations in a value that stands in a place, `path` being the way to it. -/
def violations (shape : Shape) (path : List Place) : Value → List Violation
  | .record ms =>
    localViolations shape path (.record ms) ++ memberViolations shape path ms
  | .list vs =>
    localViolations shape path (.list vs) ++ (match shape.item? with
      | some item => itemViolations item path 0 vs
      | none => [])
  | v => localViolations shape path v

/-- The violations in the members of a record. -/
def memberViolations (shape : Shape) (path : List Place) :
    List (Value × Value) → List Violation
  | [] => []
  | (name, v) :: ms => (match shape.memberOf? name with
    | some (name, inner) => violations inner (path ++ [.member name]) v
    | none => []) ++ memberViolations shape path ms

/-- The violations in the elements of a list from a number on. -/
def itemViolations (item : Shape) (path : List Place) (index : Nat) :
    List Value → List Violation
  | [] => []
  | v :: vs =>
    violations item (path ++ [.element index]) v ++ itemViolations item path (index + 1) vs

end

/-- Reports where a value departs from the shape of a form. -/
def checkShape (v : Value) : Report :=
  let found := (violations .form [] v).mergeSort fun a b => Violation.pathLe a.path b.path
  Report.concat (found.map fun violation => .error violation.words)

end BranchForm
