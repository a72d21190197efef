/-!
# Reserved step ids

Two step ids have a meaning of their own: the step a form starts with and the step that ends every
branch.
-/

namespace BranchForm

/-- The id of the step shown first. -/
def entryStepId : String := "step1"

/-- The id that stands for the terminal step of a form. -/
def finalStepId : String := "step_final"

end BranchForm
