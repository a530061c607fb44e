import Curly.Proofs.Grammar.Programs
import Curly.Proofs.Lowering.Naming
import Curly.Proofs.Lowering.Preservation
import Curly.Proofs.Scope.Visits
import Curly.Proofs.Typing.Context
import Curly.Reader
import Curly.Proofs.Typing.Complaints
import Curly.Proofs.Lowering.Breaks
import Curly.Proofs.Lowering.Segments
import Curly.Proofs.Scope.Path
import Curly.Proofs.Scope.Steps
import Curly.Proofs.Scope.Occurrences
import Curly.Proofs.Scope.Resolution
import Curly.Proofs.Typing.Derivation
import Curly.Proofs.Typing.WellTyped
import Curly.Proofs.Typing.Standing
import Curly.Proofs.Grammar.Declared
import Curly.Proofs.Typing.Judgement
import Curly.Proofs.Typing.Visited
import Curly.Proofs.Scope.Unambiguous
import Curly.Proofs.Lowering.Temporaries
import Curly.Proofs.Text.Slices
import Curly.Proofs.Errors.Earliest
import Curly.Proofs.Text.Written
import Curly.Proofs.Grammar.Layers
import Curly.Proofs.Grammar.Reaching
import Curly.Proofs.Decimal.Leading
import Curly.Proofs.Text.Wording
import Curly.Proofs.Lowering.Spelling
import Curly.Proofs.Lowering.Reads
import Curly.Proofs.Scope.Hiding
import Curly.Proofs.Lowering.Enumerators
import Curly.Proofs.Grammar.Spans
import Curly.Proofs.Scope.Stack
import Curly.Proofs.Lowering.Variables
import Curly.Proofs.Lowering.Calls
import Curly.Proofs.Typing.Kinds
import Curly.Proofs.Typing.Placement
import Curly.Proofs.Typing.Held
import Curly.Proofs.Typing.VoidVariables
import Curly.Proofs.Typing.Suppression
import Curly.Proofs.Lowering.Subterms
import Curly.Proofs.Lowering.Stores
import Curly.Proofs.Typing.Returns
import Curly.Proofs.Typing.Kept
import Curly.Proofs.Typing.Overloads
import Curly.Proofs.Lowering.Changes
import Curly.Proofs.Lowering.Waits
import Curly.Proofs.Scope.Prototypes
import Curly.Proofs.Scope.Effects
import Curly.Proofs.Scope.Tree
import Curly.Proofs.Grammar.Formed
import Curly.Proofs.Typing.Raised
import Curly.Proofs.Lowering.Targets
import Curly.Proofs.Grammar.Limited
import Curly.Proofs.Grammar.Tracking
import Curly.Proofs.Grammar.Ending
import Curly.Proofs.Lowering.Framing
import Curly.Proofs.Appending
import Curly.Proofs.Text.Characters
import Curly.Proofs.Text.Caret
import Curly.Proofs.Scope.Frames
import Curly.Proofs.Typing.Restored
import Curly.Proofs.Text.Unquoted
import Curly.Proofs.Lowering.Lines
import Curly.Proofs.Runs
import Curly.Proofs.Text.Reader
