import ExprTree.Arena
import ExprTree.Document.Writer
import ExprTree.Function.Inspect
import ExprTree.Main
import ExprTree.Proofs.Arena
import ExprTree.Proofs.Function.Compilation
import ExprTree.Proofs.Function.Equivalence
import ExprTree.Proofs.Run.Typing
import ExprTree.Proofs.Session
import ExprTree.Proofs.Run.Progress
import ExprTree.Proofs.Code.Basic
import ExprTree.Proofs.Run.Machine
import ExprTree.Proofs.Run.Termination
import ExprTree.Proofs.Run.Renaming
import ExprTree.Proofs.Function.Independence
import ExprTree.Proofs.Function.Comparison
import ExprTree.Proofs.Function.Limit
import ExprTree.Proofs.Run.Bounds
import ExprTree.Proofs.Run.Lexical
import ExprTree.Proofs.Run.Interchange
import ExprTree.Proofs.Document.RoundTrip
import ExprTree.Proofs.Document.Parsed
import ExprTree.Proofs.Function.CaptureGraph
import ExprTree.Proofs.Function.ConstantTable
import ExprTree.Proofs.Function.Depth
import ExprTree.Proofs.Json.Parsed
import ExprTree.Proofs.Function.Folding
import ExprTree.Proofs.Function.InlineConstants
import ExprTree.Proofs.Function.StaticTypes
import ExprTree.Proofs.Document.Normalised
import ExprTree.Proofs.Document.Loading
import ExprTree.Proofs.Document.Resolution
import ExprTree.Proofs.Document.Declarations
import ExprTree.Proofs.Tree.Binding
import ExprTree.Proofs.Tree.FreeParameters
import ExprTree.Proofs.Document.Scoping
import ExprTree.Proofs.Document.Acceptance
import ExprTree.Proofs.Tree.Height
import ExprTree.Proofs.Run.Folded
import ExprTree.Proofs.Value.Shape
import ExprTree.Proofs.Number.Decimal
import ExprTree.Proofs.Number.Exact
import ExprTree.Proofs.Number.Text
