import BranchForm.Text.Blank
import BranchForm.Text.Case

/-!
# Slugs

A slug is the stored form of an option's label: small letters, with every run of blanks written as
one underscore.

* `joinBlanks` replaces the runs of blanks;
* `slug` is the slug of a label.
-/

namespace BranchForm.Text

/-- The text with every run of blanks replaced by one underscore; `inRun` tells that the character
before was a blank. -/
def joinBlanks (inRun : Bool) : List Char → List Char
  | [] => []
  | c :: cs =>
    if isBlank c then (if inRun then joinBlanks true cs else '_' :: joinBlanks true cs)
    else c :: joinBlanks false cs

/-- The slug of a label. -/
def slug (label : String) : String := String.ofList (joinBlanks false (lower label).toList)

end BranchForm.Text
