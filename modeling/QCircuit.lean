import QCircuit.Main
import QCircuit.Proofs.Arithmetic.Exact
import QCircuit.Proofs.Checks
import QCircuit.Proofs.Double.Decimals
import QCircuit.Proofs.Double.Integers
import QCircuit.Proofs.Double.Packing
import QCircuit.Proofs.Double.Rounding
import QCircuit.Proofs.Double.Shortest
import QCircuit.Proofs.Expr.Arguments
import QCircuit.Proofs.Expr.Evaluation
import QCircuit.Proofs.Expr.IntegerLiteral
import QCircuit.Proofs.Expr.PlainText
import QCircuit.Proofs.Expr.Replacement
import QCircuit.Proofs.Expr.SubstitutedText
import QCircuit.Proofs.Expr.Substitution
import QCircuit.Proofs.Expr.Tokens
import QCircuit.Proofs.Expr.WrittenNumber
import QCircuit.Proofs.Gate.Inverse
import QCircuit.Proofs.Gate.Masks
import QCircuit.Proofs.Gate.Unitary
import QCircuit.Proofs.Gate.Validity
import QCircuit.Proofs.Program.Acceptance
import QCircuit.Proofs.Program.CallOrder
import QCircuit.Proofs.Program.Calls
import QCircuit.Proofs.Program.Definitions
import QCircuit.Proofs.Program.Expansion
import QCircuit.Proofs.Program.Flattening
import QCircuit.Proofs.Program.Inlining
import QCircuit.Proofs.Program.Invocation
import QCircuit.Proofs.Program.LoopRange
import QCircuit.Proofs.Program.Nesting
import QCircuit.Proofs.Program.OperandFaults
import QCircuit.Proofs.Program.Placement
import QCircuit.Proofs.Program.Renumbering
import QCircuit.Proofs.Program.Rewriting
import QCircuit.Proofs.Program.Sequencing
import QCircuit.Proofs.Program.Spelling
import QCircuit.Proofs.Program.Statements
import QCircuit.Proofs.Program.TopLevel
import QCircuit.Proofs.Program.Unrolling
import QCircuit.Proofs.Program.Visiting
import QCircuit.Proofs.Register.Action
import QCircuit.Proofs.Register.Independence
import QCircuit.Proofs.Register.MatrixPass
import QCircuit.Proofs.Register.Norm
import QCircuit.Proofs.Register.Rejection
import QCircuit.Proofs.Register.Reversal
import QCircuit.Proofs.Register.Running
import QCircuit.Proofs.Register.SwapPass
import QCircuit.Proofs.Text.Layout
import QCircuit.Proofs.Text.Runs
import QCircuit.Proofs.Program.Continuation
import QCircuit.Proofs.Program.Site
import QCircuit.Proofs.Program.CallMeaning
import QCircuit.Proofs.Program.Relocation
import QCircuit.Proofs.Program.FreeLayout
import QCircuit.Proofs.Json.Strings
import QCircuit.Proofs.Json.Numbers
import QCircuit.Proofs.Json.Grammar
import QCircuit.Proofs.Gate.Decoding
import QCircuit.Proofs.Register.Grouping
import QCircuit.Proofs.Register.Exchange
import QCircuit.Proofs.Expr.Munch
import QCircuit.Proofs.Expr.Grammar
import QCircuit.Proofs.Expr.Pieces
import QCircuit.Proofs.Expr.Joining
import QCircuit.Proofs.Program.WrittenHeader
import QCircuit.Proofs.Expr.Misfits
import QCircuit.Proofs.Program.GateWords
import QCircuit.Proofs.Gate.Width
import QCircuit.Proofs.Register.Guarded
import QCircuit.Proofs.Register.Classical
import QCircuit.Proofs.Register.ThreeFlips
import QCircuit.Proofs.Register.Turning
import QCircuit.Proofs.Program.SharedBodies
import QCircuit.Proofs.Program.Moments
import QCircuit.Proofs.Expr.Subexpressions
import QCircuit.Proofs.Program.LoopEnd
import QCircuit.Proofs.Register.Report
import QCircuit.Proofs.Gate.Listing
import QCircuit.Proofs.Program.CheckListing
import QCircuit.Proofs.Expr.Tiling
