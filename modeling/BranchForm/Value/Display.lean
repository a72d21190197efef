import BranchForm.Value.Basic
import BranchForm.Text.Quoted

/-!
# Values in messages

* `Value.literal` is the text of a value inside another one: a text between quotes, a list in square
  and a record in curly brackets;
* `Value.display` is the text of a value on its own: a text stands for itself;
* `Value.hasText` tells whether a value is written at all, which a number of very many digits is
  not.
-/

namespace BranchForm.Value

mutual

/-- The text of a value, a text between quotes. -/
def literal : Value → String
  | .null => "None"
  | .bool true => "True"
  | .bool false => "False"
  | .int n => toString n
  | .float x => x.text
  | .text s => Text.quoted s
  | .moment m => m.literal
  | .list items => "[" ++ ", ".intercalate (literals items) ++ "]"
  | .record members => "\x7b" ++ ", ".intercalate (memberLiterals members) ++ "\x7d"

/-- The texts of the values of a list. -/
def literals : List Value → List String
  | [] => []
  | v :: vs => literal v :: literals vs

/-- The texts of the members of a record, each behind its name. -/
def memberLiterals : List (Value × Value) → List String
  | [] => []
  | (k, v) :: ms => (literal k ++ ": " ++ literal v) :: memberLiterals ms

end

/-- The text of a value on its own. -/
def display : Value → String
  | .text s => s
  | .moment m => m.display
  | v => v.literal

/-- The most digits with which a whole number is written. -/
def mostDigits : Nat := 4300

mutual

/-- Whether a value has a text: all whole numbers in it are short enough. -/
def hasText : Value → Bool
  | .int n => n.natAbs < 10 ^ mostDigits
  | .list items => haveTexts items
  | .record members => membersHaveTexts members
  | _ => true

/-- Whether all values of a list have texts. -/
def haveTexts : List Value → Bool
  | [] => true
  | v :: vs => hasText v && haveTexts vs

/-- Whether all names and values of a record have texts. -/
def membersHaveTexts : List (Value × Value) → Bool
  | [] => true
  | (k, v) :: ms => hasText k && hasText v && membersHaveTexts ms

end

end BranchForm.Value
