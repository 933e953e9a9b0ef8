import Prosemark.Main
import Prosemark.Tree.Build
import Prosemark.Tree.SpanCheck
import Prosemark.Value.Debug
import Prosemark.Proofs.Category
import Prosemark.Proofs.Lexeme
import Prosemark.Proofs.Break
import Prosemark.Proofs.Rules
import Prosemark.Proofs.Layout
import Prosemark.Proofs.NormalForm
import Prosemark.Proofs.Soundness
import Prosemark.Proofs.SpanCheck
import Prosemark.Proofs.Completeness
import Prosemark.Proofs.Refusal
import Prosemark.Proofs.Carry
import Prosemark.Proofs.Exchange
import Prosemark.Proofs.Transfer
import Prosemark.Proofs.SwitchChoice
import Prosemark.Proofs.Wrapping
import Prosemark.Proofs.Padding
import Prosemark.Proofs.Shift
import Prosemark.Proofs.Concatenation
import Prosemark.Proofs.Run
import Prosemark.Proofs.Schedule
import Prosemark.Proofs.VisitOrder
import Prosemark.Proofs.LineJoining
import Prosemark.Proofs.Escaping
import Prosemark.Proofs.Account
import Prosemark.Proofs.Failure
import Prosemark.Proofs.VisitOnce
import Prosemark.Proofs.Mirror
import Prosemark.Proofs.Callables
import Prosemark.Proofs.SpanIndependence
import Prosemark.Proofs.Composition
import Prosemark.Proofs.Names
import Prosemark.Proofs.CleanValues
import Prosemark.Proofs.ArgumentLists
import Prosemark.Proofs.ShortestDecimal
import Prosemark.Proofs.NumberText
import Prosemark.Proofs.JsonText
import Prosemark.Proofs.TreeJson
import Prosemark.Proofs.Flattening
import Prosemark.Proofs.LoopSplitting
import Prosemark.Proofs.ClosingHashes
import Prosemark.Proofs.TokenSpacing
import Prosemark.Proofs.Positions
import Prosemark.Proofs.SourceContext
import Prosemark.Proofs.Outline
import Prosemark.Proofs.Drawing
import Prosemark.Proofs.Nesting
import Prosemark.Proofs.Integers
import Prosemark.Proofs.Choices
import Prosemark.Proofs.Progress
import Prosemark.Proofs.Reading
