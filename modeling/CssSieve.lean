import CssSieve.CommandLine.Arguments
import CssSieve.CommandLine.Basic
import CssSieve.CommandLine.Help
import CssSieve.Decimal.Layout
import CssSieve.Decimal.Shortest
import CssSieve.Diagnostic.Basic
import CssSieve.Diagnostic.Json
import CssSieve.Grammar.AnyOrder
import CssSieve.Grammar.Basic
import CssSieve.Grammar.Furthest
import CssSieve.Grammar.Primitives
import CssSieve.Grammar.Repetition
import CssSieve.Grammar.Search
import CssSieve.Grammar.Threaded
import CssSieve.Json.Basic
import CssSieve.Json.Lexeme
import CssSieve.Json.Reader
import CssSieve.Json.Text
import CssSieve.Limits
import CssSieve.Main
import CssSieve.MediaQuery
import CssSieve.Policy.AtRule
import CssSieve.Policy.Basic
import CssSieve.Policy.Checked
import CssSieve.Policy.Declaration
import CssSieve.Policy.Json
import CssSieve.Policy.Options
import CssSieve.Policy.StyleRule
import CssSieve.Property.Background
import CssSieve.Property.Border
import CssSieve.Property.Box
import CssSieve.Property.Content
import CssSieve.Property.Effect
import CssSieve.Property.Extended
import CssSieve.Property.Flex
import CssSieve.Property.Font
import CssSieve.Property.Motion
import CssSieve.Property.Standard
import CssSieve.Property.Text
import CssSieve.Registry.Basic
import CssSieve.Registry.NameTable
import CssSieve.Selector
import CssSieve.Sheet.Basic
import CssSieve.Sheet.Declarations
import CssSieve.Sheet.Important
import CssSieve.Sheet.Json
import CssSieve.Sheet.Nesting
import CssSieve.Sheet.Rules
import CssSieve.Sheet.Text
import CssSieve.Text.Ascii
import CssSieve.Text.Blank
import CssSieve.Token.Basic
import CssSieve.Token.Json
import CssSieve.Token.Text
import CssSieve.Value.Assembly
import CssSieve.Value.Basic
import CssSieve.Value.Json
import CssSieve.Value.Text
import CssSieve.Warning
import CssSieve.Proofs.Policy.Acceptance
import CssSieve.Proofs.Policy.Opening
import CssSieve.Proofs.Policy.Options
import CssSieve.Proofs.Grammar.Adequacy
import CssSieve.Proofs.Policy.Deletion
import CssSieve.Proofs.Policy.Idempotence
import CssSieve.Proofs.Policy.Survival
import CssSieve.Proofs.Policy.Validity
import CssSieve.Proofs.Diagnostic.Reports
import CssSieve.Proofs.Policy.Accounting
import CssSieve.Proofs.Limits.Allowing
import CssSieve.Proofs.Policy.Bounds
import CssSieve.Proofs.Grammar.Advancing
import CssSieve.Proofs.Grammar.Widening
import CssSieve.Proofs.Property.Standard
import CssSieve.Proofs.Property.Extended
import CssSieve.Proofs.Sheet.Spelling
import CssSieve.Proofs.Value.Trimming
import CssSieve.Proofs.Sheet.Legible
import CssSieve.Proofs.Sheet.RoundTrip
import CssSieve.Proofs.Value.Assembling
import CssSieve.Proofs.Policy.Rereading
import CssSieve.Proofs.Grammar.Recording
import CssSieve.Proofs.Grammar.Shifting
import CssSieve.Proofs.Grammar.Threading
import CssSieve.Proofs.Grammar.Contract
import CssSieve.Proofs.Registry.Refinement
import CssSieve.Proofs.Property.WiderTypes
import CssSieve.Proofs.Property.Leaves
import CssSieve.Proofs.Grammar.Spacing
import CssSieve.Proofs.Value.Respelling
import CssSieve.Proofs.Grammar.Respelling
import CssSieve.Proofs.Sheet.Respelling
import CssSieve.Proofs.Policy.CaseBlind
import CssSieve.Proofs.Policy.Respelling
import CssSieve.Proofs.Grammar.Separating
import CssSieve.Proofs.Grammar.Greedy
import CssSieve.Proofs.Sheet.Encoding
import CssSieve.Proofs.Token.Quoting
import CssSieve.Proofs.Diagnostic.Encoding
import CssSieve.Proofs.Policy.Encoding
import CssSieve.Proofs.Grammar.Backtracking
import CssSieve.Proofs.Grammar.Arranging
import CssSieve.Proofs.Selector.Splitting
import CssSieve.Proofs.Property.ReferenceAnywhere
import CssSieve.Proofs.Grammar.Height
import CssSieve.Proofs.Selector.Nesting
import CssSieve.Proofs.MediaQuery.Joining
import CssSieve.Proofs.Grammar.Tight
import CssSieve.Proofs.Selector.Touching
import CssSieve.Proofs.Policy.Importance
import CssSieve.Proofs.Sheet.Resuming
import CssSieve.Proofs.Limits.Violations
import CssSieve.Proofs.Property.AnyBase
import CssSieve.Proofs.Warning.Confusion
import CssSieve.Proofs.Grammar.Keeping
import CssSieve.Proofs.Sheet.Annotation
import CssSieve.Proofs.Grammar.Faulting
import CssSieve.Proofs.Grammar.Hinting
import CssSieve.Proofs.Grammar.Finishing
import CssSieve.Proofs.Sheet.Finishing
import CssSieve.Proofs.Policy.Finishing
