import BranchForm.Error

/-!
# Reports of checks

A check reports errors, which make a form invalid, and flaws, which do not.

* `Report` holds both in the order they were found;
* `Report.merge` puts one report behind another; a merged report is valid when both are;
* `Report.error` and `Report.flaw` report a single thing, `Report.ofKind` does so by a name.
-/

namespace BranchForm

/-- What a check found. -/
structure Report where
  /-- Whether the checked form is valid. -/
  valid : Bool := true
  /-- What makes it invalid. -/
  errors : List Value := []
  /-- What is worth telling. -/
  warnings : List Value := []
  deriving DecidableEq, Repr, Inhabited

namespace Report

/-- A report of nothing. -/
def ok : Report := {}

/-- A report of one error. -/
def error (text : Value) : Report := { valid := false, errors := [text] }

/-- A report of one flaw. -/
def flaw (text : Value) : Report := { warnings := [text] }

/-- A report and another one behind it. -/
def merge (r s : Report) : Report :=
  { valid := r.valid && s.valid
    errors := r.errors ++ s.errors
    warnings := r.warnings ++ s.warnings }

/-- A report by the name of its kind. -/
def ofKind (kind text : Value) : Except Error Report :=
  match kind with
  | .text "ok" => .ok ok
  | .text "error" => .ok (error text)
  | .text "warning" => .ok (flaw text)
  | .text "merge" => .error (.fault .wrongKind)
  | .text _ => .error (.fault .missingOperation)
  | _ => .error (.fault .wrongKind)

/-- Reports one behind the other. -/
def concat (rs : List Report) : Report := rs.foldl merge ok

/-- The record of a report. -/
def encode (r : Report) : Value :=
  .record [("valid", .bool r.valid), ("errors", .list r.errors), ("warnings", .list r.warnings)]

end Report

end BranchForm
