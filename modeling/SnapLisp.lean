import SnapLisp.Editor.Highlight
import SnapLisp.Main
import SnapLisp.Proofs.Evaluation.Application
import SnapLisp.Proofs.Evaluation.Fuel
import SnapLisp.Proofs.Evaluation.Relation
import SnapLisp.Proofs.Form.Leaves
import SnapLisp.Proofs.Value.Induction
import SnapLisp.Proofs.Value.Similarity
import SnapLisp.Proofs.Evaluation.ScopeTrimming
import SnapLisp.Proofs.Evaluation.FrameLaw
import SnapLisp.Proofs.Evaluation.Guarded
import SnapLisp.Proofs.Evaluation.Settles
import SnapLisp.Proofs.Evaluation.Termination
import SnapLisp.Proofs.Number.Double
import SnapLisp.Proofs.Number.Rounding
import SnapLisp.Proofs.Number.WholeText
import SnapLisp.Proofs.Token.Spelling
import SnapLisp.Proofs.Form.Canonical
import SnapLisp.Proofs.Form.Parsing
import SnapLisp.Proofs.Form.RoundTrip
import SnapLisp.Proofs.Evaluation.Sequence
import SnapLisp.Proofs.Form.Balance
import SnapLisp.Proofs.Evaluation.Calls
import SnapLisp.Proofs.Form.Respanned
import SnapLisp.Proofs.Scope.Pointwise
import SnapLisp.Proofs.Value.Respanned
import SnapLisp.Proofs.Evaluation.Respanned
import SnapLisp.Proofs.Evaluation.Layout
import SnapLisp.Proofs.Token.Seam
import SnapLisp.Proofs.Form.Joined
import SnapLisp.Proofs.Evaluation.LineByLine
import SnapLisp.Proofs.Scope.Bindings
import SnapLisp.Proofs.Value.Contents
import SnapLisp.Proofs.Form.Nesting
import SnapLisp.Proofs.Evaluation.Ensures
import SnapLisp.Proofs.Evaluation.Provenance
import SnapLisp.Proofs.Token.Places
import SnapLisp.Proofs.Form.Places
import SnapLisp.Proofs.Evaluation.Blame
import SnapLisp.Proofs.Token.ByOffset
import SnapLisp.Proofs.Form.ByIndex
import SnapLisp.Proofs.Evaluation.Machine
import SnapLisp.Proofs.Evaluation.Unbroken
import SnapLisp.Proofs.Console.Shared
import SnapLisp.Proofs.Source.Places
import SnapLisp.Proofs.Token.Lexemes
import SnapLisp.Proofs.Token.Tiling
import SnapLisp.Proofs.Token.MaximalMunch
import SnapLisp.Proofs.Number.Overflow
import SnapLisp.Proofs.Number.Notation
import SnapLisp.Proofs.Token.Faults
import SnapLisp.Proofs.Form.Slices
import SnapLisp.Proofs.Form.Positions
import SnapLisp.Proofs.Form.Collapsed
import SnapLisp.Proofs.Json.Unambiguous
import SnapLisp.Proofs.Form.Document
import SnapLisp.Proofs.Form.Parentheses
import SnapLisp.Proofs.Editor.Completeness
import SnapLisp.Proofs.CommandLine.RunAndCheck
import SnapLisp.Proofs.Evaluation.Operators
import SnapLisp.Proofs.Scope.Histories
import SnapLisp.Proofs.Number.Display
import SnapLisp.Proofs.Value.Equality
import SnapLisp.Proofs.Scope.Renamed
import SnapLisp.Proofs.Value.Renamed
import SnapLisp.Proofs.Evaluation.Renamed
import SnapLisp.Proofs.Editor.Highlight
import SnapLisp.Proofs.Number.Nearest
import SnapLisp.Proofs.Token.Literals
