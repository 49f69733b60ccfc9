import Abacus.Main
import Abacus.Crosscheck.Comparison
import Abacus.Proofs.Expr.Grammar
import Abacus.Proofs.Expr.Value
import Abacus.Proofs.Flat.Machine
import Abacus.Proofs.Flat.Phrases
import Abacus.Proofs.Reader.Phrases
import Abacus.Proofs.Evaluation.Machine
import Abacus.Proofs.Evaluation.Grammar
import Abacus.Proofs.Evaluation.Checker
import Abacus.Proofs.Token.Relocation
import Abacus.Proofs.Flat.Relocation
import Abacus.Proofs.Evaluation.Substitution
import Abacus.Proofs.Evaluation.Spelling
import Abacus.Proofs.Evaluation.Blanks
import Abacus.Proofs.Token.Brackets
import Abacus.Proofs.Evaluation.Places
import Abacus.Proofs.Reader.Prefix
import Abacus.Proofs.Evaluation.Prefix
import Abacus.Proofs.Reader.Plans
import Abacus.Proofs.Reader.Calls
import Abacus.Proofs.Reader.Nesting
import Abacus.Proofs.Evaluation.Limit
import Abacus.Proofs.Token.Partition
import Abacus.Proofs.Token.Advance
import Abacus.Proofs.Reader.Uses
import Abacus.Proofs.Exact.Reals
import Abacus.Proofs.Crosscheck.Agreement
import Abacus.Proofs.Shell.Arguments
import Abacus.Proofs.Shell.Piping
import Abacus.Proofs.Token.Seams
import Abacus.Proofs.Token.Repetition
import Abacus.Proofs.Shell.MissingTokens
import Abacus.Proofs.Token.Line
import Abacus.Proofs.Evaluation.Ordinals
import Abacus.Proofs.Shell.Sessions
import Abacus.Proofs.Shell.Wordings
import Abacus.Proofs.Expr.Adjacency
import Abacus.Proofs.Crosscheck.Filter
import Abacus.Proofs.Binary64.Fields
import Abacus.Proofs.Binary64.Rounding
import Abacus.Proofs.Decimal.Shortest
import Abacus.Proofs.Decimal.Numerals
import Abacus.Proofs.Binary64.Display
import Abacus.Proofs.Evaluation.Display
import Abacus.Proofs.Text.Excerpt
import Abacus.Proofs.Evaluation.Report
import Abacus.Proofs.Shell.Terminal
import Abacus.Proofs.Shell.Transcripts
import Abacus.Proofs.Expr.Longest
import Abacus.Proofs.Reader.Longest
