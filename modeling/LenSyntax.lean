import LenSyntax.Editor
import LenSyntax.Main
import LenSyntax.Proofs.Arena.Operations
import LenSyntax.Proofs.Arena.PostOrder
import LenSyntax.Proofs.Command.DamagedInput
import LenSyntax.Proofs.Command.Ending
import LenSyntax.Proofs.Command.Planning
import LenSyntax.Proofs.Command.Selection
import LenSyntax.Proofs.Command.Watching
import LenSyntax.Proofs.Diagnostic.Order
import LenSyntax.Proofs.Dump.Program
import LenSyntax.Proofs.Dump.Tokens
import LenSyntax.Proofs.Editor.Place
import LenSyntax.Proofs.Editor.Problems
import LenSyntax.Proofs.Grammar.Acceptance
import LenSyntax.Proofs.Grammar.Accounting
import LenSyntax.Proofs.Grammar.Allowance
import LenSyntax.Proofs.Grammar.Coherence
import LenSyntax.Proofs.Grammar.Comments
import LenSyntax.Proofs.Grammar.DepthLimit
import LenSyntax.Proofs.Grammar.Layout
import LenSyntax.Proofs.Grammar.Locality
import LenSyntax.Proofs.Grammar.Nesting
import LenSyntax.Proofs.Grammar.Pointing
import LenSyntax.Proofs.Grammar.RoundTrip
import LenSyntax.Proofs.Grammar.Size
import LenSyntax.Proofs.Machine.Consuming
import LenSyntax.Proofs.Machine.EndOfInput
import LenSyntax.Proofs.Machine.Filled
import LenSyntax.Proofs.Machine.Program
import LenSyntax.Proofs.Machine.Skipping
import LenSyntax.Proofs.Machine.Tracking
import LenSyntax.Proofs.Report.Failure
import LenSyntax.Proofs.Report.Lines
import LenSyntax.Proofs.Report.Messages
import LenSyntax.Proofs.Report.Snippets
import LenSyntax.Proofs.Report.Wording
import LenSyntax.Proofs.Token.Diagnosing
import LenSyntax.Proofs.Token.Longest
import LenSyntax.Proofs.Token.NumericLiteral
import LenSyntax.Proofs.Token.Separation
import LenSyntax.Proofs.Token.StringLiteral
