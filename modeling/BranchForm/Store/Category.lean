import BranchForm.Value.Display
import BranchForm.Text.Case

/-!
# Categories of stored forms

The storage files a form under one of a fixed list of categories, by its place in the list.

* `Category` lists them; `Category.number` is the place of a category;
* `Category.ofNumber` and `Category.coerce` find the category of a place or of what a caller gives;
  what is unknown is filed as generic.
-/

namespace BranchForm

/-- A category of forms. -/
inductive Category where
  | realEstate | education | insurance | healthcare | finance | ecommerce | events | travel
  | restaurant | automobile | beautyWellness | legal | construction | nonProfit | technology
  | hospital | generic
  deriving DecidableEq, Repr, Inhabited

namespace Category

/-- All categories in the order of the storage. -/
def all : List Category :=
  [.realEstate, .education, .insurance, .healthcare, .finance, .ecommerce, .events, .travel,
    .restaurant, .automobile, .beautyWellness, .legal, .construction, .nonProfit, .technology,
    .hospital, .generic]

/-- The stored name of a category. -/
def name : Category → String
  | .realEstate => "REAL_ESTATE"
  | .education => "EDUCATION"
  | .insurance => "INSURANCE"
  | .healthcare => "HEALTHCARE"
  | .finance => "FINANCE"
  | .ecommerce => "ECOMMERCE"
  | .events => "EVENTS"
  | .travel => "TRAVEL"
  | .restaurant => "RESTAURANT"
  | .automobile => "AUTOMOBILE"
  | .beautyWellness => "BEAUTY_WELLNESS"
  | .legal => "LEGAL"
  | .construction => "CONSTRUCTION"
  | .nonProfit => "NON_PROFIT"
  | .technology => "TECHNOLOGY"
  | .hospital => "HOSPITAL"
  | .generic => "GENERIC"

/-- The place of a category, counted from zero. -/
def number (c : Category) : Nat := all.idxOf c

/-- The category of a stored name. -/
def ofName? (name : String) : Option Category := all.find? fun c => c.name == name

/-- The category at a place, generic if there is none. A truth value counts as a number. -/
def ofNumber (v : Value) : Category :=
  match v with
  | .int (.ofNat n) => all[n]?.getD .generic
  | .bool b => all[if b then 1 else 0]?.getD .generic
  | _ => .generic

/-- The category that a value names in letters of either case, or by its place. -/
def coerce (v : Value) : Category :=
  match v with
  | .int n => ofNumber (.int n)
  | .text s => (ofName? (Text.capitals s)).getD .generic
  | _ => .generic

/-- The record of a category. -/
def encode (c : Category) : Value :=
  .record [("name", .text c.name), ("id", .int c.number)]

end Category

end BranchForm
