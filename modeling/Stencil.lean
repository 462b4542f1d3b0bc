import Stencil.Analysis
import Stencil.Calendar
import Stencil.CommandLine
import Stencil.CommandLine.Arguments
import Stencil.Diagnostic
import Stencil.Dict
import Stencil.Document
import Stencil.Document.Json
import Stencil.Engine
import Stencil.Failure
import Stencil.Fault
import Stencil.Library
import Stencil.Library.Filters
import Stencil.Library.Functions
import Stencil.Library.Routine
import Stencil.Main
import Stencil.Markup.Bracket
import Stencil.Markup.Check
import Stencil.Markup.Construct
import Stencil.Markup.Document
import Stencil.Markup.Expression
import Stencil.Markup.Keyword
import Stencil.Markup.Match
import Stencil.Markup.Matcher
import Stencil.Markup.Scan
import Stencil.Number
import Stencil.Number.Decimal
import Stencil.Number.Double
import Stencil.Number.Reading
import Stencil.Operator
import Stencil.Options
import Stencil.Proofs.Agreement
import Stencil.Proofs.Balance
import Stencil.Proofs.Batches
import Stencil.Proofs.Blame
import Stencil.Proofs.Brackets
import Stencil.Proofs.Calm
import Stencil.Proofs.Candidates
import Stencil.Proofs.Characters
import Stencil.Proofs.Companions
import Stencil.Proofs.Conservation
import Stencil.Proofs.Dependence
import Stencil.Proofs.Derivation
import Stencil.Proofs.Enclosure
import Stencil.Proofs.Endings
import Stencil.Proofs.Engines
import Stencil.Proofs.Escaping
import Stencil.Proofs.Exhaustion
import Stencil.Proofs.Extents
import Stencil.Proofs.Faults
import Stencil.Proofs.Filters
import Stencil.Proofs.Gathering
import Stencil.Proofs.Grammar
import Stencil.Proofs.Grouping
import Stencil.Proofs.Heights
import Stencil.Proofs.Hits
import Stencil.Proofs.Lexemes
import Stencil.Proofs.Likeness
import Stencil.Proofs.Limits
import Stencil.Proofs.Lines
import Stencil.Proofs.Marks
import Stencil.Proofs.Matching
import Stencil.Proofs.Meaning
import Stencil.Proofs.Merging
import Stencil.Proofs.Mirrors
import Stencil.Proofs.Moments
import Stencil.Proofs.Nesting
import Stencil.Proofs.Nodes
import Stencil.Proofs.Notation
import Stencil.Proofs.Operands
import Stencil.Proofs.Outcome
import Stencil.Proofs.Pairing
import Stencil.Proofs.Parts
import Stencil.Proofs.Pieces
import Stencil.Proofs.Places
import Stencil.Proofs.Positions
import Stencil.Proofs.Presence
import Stencil.Proofs.Printing
import Stencil.Proofs.Readings
import Stencil.Proofs.Requests
import Stencil.Proofs.Resolution
import Stencil.Proofs.RoundTrip
import Stencil.Proofs.Runs
import Stencil.Proofs.Scanning
import Stencil.Proofs.Selection
import Stencil.Proofs.Sessions
import Stencil.Proofs.Sources
import Stencil.Proofs.Steadiness
import Stencil.Proofs.Step
import Stencil.Proofs.Suffixes
import Stencil.Proofs.Tiling
import Stencil.Proofs.Traces
import Stencil.Proofs.Transparency
import Stencil.Proofs.Upkeep
import Stencil.Proofs.Whitespace
import Stencil.Rendering
import Stencil.Rendering.Evaluation
import Stencil.Rendering.Output
import Stencil.Scope
import Stencil.Sorting
import Stencil.Sorting.Merge
import Stencil.Sorting.Search
import Stencil.Store
import Stencil.Text.Alphabet
import Stencil.Text.Case
import Stencil.Text.CaseTable
import Stencil.Text.Character
import Stencil.Text.Hidden
import Stencil.Text.Position
import Stencil.Text.Quoted
import Stencil.Text.Walk
import Stencil.Text.Words
import Stencil.Token
import Stencil.Token.Document
import Stencil.Token.Lexing
import Stencil.Tree
import Stencil.Tree.Building
import Stencil.Tree.Document
import Stencil.Tree.Emptiness
import Stencil.Tree.Frame
import Stencil.Tree.Outline
import Stencil.Tree.Reading
import Stencil.Value
import Stencil.Value.Access
import Stencil.Value.Equality
import Stencil.Value.Numeric
import Stencil.Value.Order
import Stencil.Value.Written
import Stencil.Proofs.Precedence
import Stencil.Proofs.Folding
import Stencil.Proofs.Dotted
import Stencil.Proofs.Overriding
import Stencil.Proofs.Inheritance
import Stencil.Proofs.Unwinding
import Stencil.Proofs.Renaming
import Stencil.Proofs.Images
import Stencil.Proofs.Equivariance
import Stencil.Proofs.Indifference
import Stencil.Proofs.Repetition
import Stencil.Proofs.Concatenation
import Stencil.Proofs.Insertions
import Stencil.Proofs.Coverage
import Stencil.Proofs.Writing
import Stencil.Proofs.Mentions
import Stencil.Proofs.Noting
import Stencil.Proofs.Collecting
import Stencil.Proofs.Silences
import Stencil.Proofs.Separators
import Stencil.Proofs.Arguments
import Stencil.Proofs.Unions
import Stencil.Proofs.Visibility
import Stencil.Proofs.Rounding
import Stencil.Proofs.Remainders
import Stencil.Proofs.Numerals
import Stencil.Proofs.Comparing
import Stencil.Proofs.Progressions
import Stencil.Proofs.Joining
import Stencil.Proofs.Sums
import Stencil.Proofs.Ranges
import Stencil.Proofs.Markers
import Stencil.Proofs.Quotation
import Stencil.Proofs.Ordering
import Stencil.Proofs.Displacement
import Stencil.Proofs.Chains
import Stencil.Proofs.Interchange
import Stencil.Proofs.Bracketing
import Stencil.Proofs.Splitting
