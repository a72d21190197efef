import BranchForm.Check.Structure
import BranchForm.Compile
import BranchForm.Session.Move
import BranchForm.Settings.File
import BranchForm.Store.Envelope
import BranchForm.Tree.Builder
import BranchForm.Tree.Path
import BranchForm.Proofs.Compiled
import BranchForm.Proofs.Trees
import BranchForm.Proofs.Following
import BranchForm.Proofs.RoundTrip
import BranchForm.Proofs.Requests
import BranchForm.Proofs.Descent
import BranchForm.Proofs.Paging
import BranchForm.Proofs.Reach
import BranchForm.Proofs.OnForm
import BranchForm.Proofs.Valid
import BranchForm.Proofs.TreeShape
import BranchForm.Proofs.JsonText
import BranchForm.Proofs.Codec
import BranchForm.Proofs.Shapes
import BranchForm.Proofs.Stored
import BranchForm.Proofs.Log
import BranchForm.Proofs.Return
import BranchForm.Proofs.Retrace
import BranchForm.Proofs.Decoding
import BranchForm.Proofs.Kept
import BranchForm.Proofs.Gap
import BranchForm.Proofs.Checked
import BranchForm.Proofs.Edits
import BranchForm.Proofs.Choosing
import BranchForm.Proofs.Resumed
import BranchForm.Proofs.Building
import BranchForm.Proofs.Drawn
import BranchForm.Proofs.AnswerKeys
import BranchForm.Proofs.Settled
import BranchForm.Proofs.Rounding
import BranchForm.Proofs.NumberText
import BranchForm.Proofs.JsonValues
import BranchForm.Proofs.Restored
import BranchForm.Proofs.Retraction
import BranchForm.Proofs.Ahead
import BranchForm.Proofs.Answering
import BranchForm.Proofs.FirstError
import BranchForm.Proofs.Unlabelled
import BranchForm.Proofs.Layout
import BranchForm.Proofs.Expanding
import BranchForm.Proofs.Outcomes
import BranchForm.Proofs.Backtrack
import BranchForm.Proofs.Moving
import BranchForm.Proofs.Commuting
import BranchForm.Proofs.Patching
import BranchForm.Proofs.Verdict
import BranchForm.Proofs.Defects
import BranchForm.Proofs.Unanswered
import BranchForm.Proofs.Beginning
import BranchForm.Proofs.Toggling
import BranchForm.Proofs.Siblings
import BranchForm.Proofs.Listing
import BranchForm.Proofs.Occurrence
import BranchForm.Proofs.Missing
