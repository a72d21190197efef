import BranchForm.Value.Basic

/-!
# Agreement and order of values

Answers and options are compared by what they stand for and not by how they were written.

* `Value.agrees`: numbers agree by value, true and false count as one and zero, lists agree place by
  place and records name by name;
* `Value.less?` orders texts by code points, numbers by their exact values, moments by time and
  lists place by place; other pairs have no order;
* `Value.sort?` sorts a list whose values are all ordered.
-/

namespace BranchForm.Value

/-- A truth value as the number it counts as. -/
def asNumber : Value → Value
  | .bool b => .int (if b then 1 else 0)
  | v => v

/-- Whether two numbers have the same value. -/
def numberAgrees : Value → Value → Bool
  | .int m, .int n => m == n
  | .int m, .float y => y.isInt m
  | .float x, .int n => x.isInt n
  | .float x, .float y => x.agrees y
  | _, _ => false

mutual

/-- Whether two values stand for the same thing. -/
def agrees : Value → Value → Bool
  | .null, w => w = .null
  | .text s, w => w = .text s
  | .moment m, w => match w with
    | .moment n => m.agrees n
    | _ => false
  | .bool b, w => numberAgrees (.int (if b then 1 else 0)) w.asNumber
  | .int n, w => numberAgrees (.int n) w.asNumber
  | .float x, w => numberAgrees (.float x) w.asNumber
  | .list vs, .list ws => agreesAll vs ws
  | .record ms, .record ns => ms.length == ns.length && agreesMembers ms ns
  | .list _, _ => false
  | .record _, _ => false

/-- Whether two lists agree place by place. -/
def agreesAll : List Value → List Value → Bool
  | [], [] => true
  | v :: vs, w :: ws => agrees v w && agreesAll vs ws
  | _, _ => false

/-- Whether every member agrees with a member of its name in a second record. -/
def agreesMembers : List (Value × Value) → List (Value × Value) → Bool
  | [], _ => true
  | (k, v) :: ms, ns => (ns.any fun (l, w) => agrees k l && agrees v w) && agreesMembers ms ns

end

/-- Whether a list holds a value that agrees with this one. -/
def within (v : Value) (items : List Value) : Bool := items.any fun w => w.agrees v

/-- A list without its first value that agrees with this one. -/
def removeFrom (v : Value) : List Value → List Value
  | [] => []
  | w :: ws => if w.agrees v then ws else w :: removeFrom v ws

/-- Whether one number is below another. -/
def numberLess? : Value → Value → Option Bool
  | .int m, .int n => some (m < n)
  | .int m, .float y => some (y.isAbove m)
  | .float x, .int n => some (x.isBelow n)
  | .float x, .float y => some (x.less y)
  | _, _ => none

mutual

/-- Whether one value comes before another, if the two have an order. -/
def less? : Value → Value → Option Bool
  | .text s, .text t => some (s < t)
  | .moment m, .moment n => m.less? n
  | .list vs, .list ws => lessAll? vs ws
  | .bool b, w => numberLess? (.int (if b then 1 else 0)) w.asNumber
  | .int m, w => numberLess? (.int m) w.asNumber
  | .float x, w => numberLess? (.float x) w.asNumber
  | _, _ => none

/-- Whether one list comes before another: the first place where they disagree decides. -/
def lessAll? : List Value → List Value → Option Bool
  | [], ws => some (!ws.isEmpty)
  | _ :: _, [] => some false
  | v :: vs, w :: ws => if agrees v w then lessAll? vs ws else less? v w

end

/-- A sorted list with one more value, behind the values that are not above it. -/
def insert? (v : Value) : List Value → Option (List Value)
  | [] => some [v]
  | w :: ws => do
    if ← less? v w then pure (v :: w :: ws) else pure (w :: (← insert? v ws))

/-- The values in rising order, if they are ordered with each other. -/
def sort? (vs : List Value) : Option (List Value) :=
  vs.foldlM (fun sorted v => insert? v sorted) []

theorem agrees_text (s t : String) : agrees (.text s) (.text t) = decide (s = t) := by
  simp [agrees, eq_comm]

theorem within_cons (v w : Value) (items : List Value) :
    v.within (w :: items) = (w.agrees v || v.within items) := rfl

end BranchForm.Value
