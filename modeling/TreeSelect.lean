import TreeSelect.Association
import TreeSelect.Capture
import TreeSelect.Context
import TreeSelect.Conventions
import TreeSelect.Conventions.Configuration
import TreeSelect.Conventions.IdConvention
import TreeSelect.Evaluation
import TreeSelect.Grammar
import TreeSelect.Grammar.Error
import TreeSelect.Grammar.Rule
import TreeSelect.Grammar.RuleTable
import TreeSelect.Grammar.Selectors
import TreeSelect.Index
import TreeSelect.Json
import TreeSelect.Machine
import TreeSelect.Matches
import TreeSelect.Ordinals
import TreeSelect.Pattern
import TreeSelect.Pattern.Reading
import TreeSelect.Program
import TreeSelect.Proofs.Capture.Brackets
import TreeSelect.Proofs.Capture.Geometry
import TreeSelect.Proofs.Capture.Order
import TreeSelect.Proofs.Conventions.Configuration
import TreeSelect.Proofs.Derivation.Basic
import TreeSelect.Proofs.Derivation.Captures
import TreeSelect.Proofs.Derivation.Commas
import TreeSelect.Proofs.Derivation.Concatenation
import TreeSelect.Proofs.Derivation.ConditionReading
import TreeSelect.Proofs.Derivation.Conditions
import TreeSelect.Proofs.Derivation.Extents
import TreeSelect.Proofs.Derivation.GroupReading
import TreeSelect.Proofs.Derivation.Nesting
import TreeSelect.Proofs.Derivation.Offsets
import TreeSelect.Proofs.Derivation.Opening
import TreeSelect.Proofs.Derivation.Placement
import TreeSelect.Proofs.Derivation.Printing
import TreeSelect.Proofs.Derivation.PseudoTexts
import TreeSelect.Proofs.Derivation.Rules
import TreeSelect.Proofs.Derivation.SelectorReading
import TreeSelect.Proofs.Derivation.Settling
import TreeSelect.Proofs.Derivation.Shipped
import TreeSelect.Proofs.Derivation.Spelling
import TreeSelect.Proofs.Derivation.Unambiguous
import TreeSelect.Proofs.Evaluation.Adapters
import TreeSelect.Proofs.Evaluation.Answer
import TreeSelect.Proofs.Evaluation.Candidates
import TreeSelect.Proofs.Evaluation.Collecting
import TreeSelect.Proofs.Evaluation.Image
import TreeSelect.Proofs.Evaluation.Intersection
import TreeSelect.Proofs.Evaluation.Laziness
import TreeSelect.Proofs.Evaluation.Meaning
import TreeSelect.Proofs.Evaluation.Narrowing
import TreeSelect.Proofs.Evaluation.PseudoSelectors
import TreeSelect.Proofs.Grammar.Composition
import TreeSelect.Proofs.Grammar.Expansion
import TreeSelect.Proofs.Grammar.Recursion
import TreeSelect.Proofs.Grammar.SelectorSyntax
import TreeSelect.Proofs.Grammar.TrailingBlanks
import TreeSelect.Proofs.Index.Enclosure
import TreeSelect.Proofs.Index.Lookup
import TreeSelect.Proofs.Index.Reflection
import TreeSelect.Proofs.Json.Reading
import TreeSelect.Proofs.Json.Spelling
import TreeSelect.Proofs.Json.Tokens
import TreeSelect.Proofs.Json.Words
import TreeSelect.Proofs.Json.Writing
import TreeSelect.Proofs.Machine.Course
import TreeSelect.Proofs.Machine.Decision
import TreeSelect.Proofs.Machine.Effort
import TreeSelect.Proofs.Machine.Halting
import TreeSelect.Proofs.Machine.Integrity
import TreeSelect.Proofs.Machine.Lowering
import TreeSelect.Proofs.Machine.Scopes
import TreeSelect.Proofs.Machine.Search
import TreeSelect.Proofs.Machine.Threads
import TreeSelect.Proofs.Machine.Trail
import TreeSelect.Proofs.Pattern.CodePoints
import TreeSelect.Proofs.Pattern.Denotation
import TreeSelect.Proofs.Pattern.Dialect
import TreeSelect.Proofs.Pattern.DialectAcceptance
import TreeSelect.Proofs.Pattern.DialectReading
import TreeSelect.Proofs.Pattern.Language
import TreeSelect.Proofs.Pattern.Relocation
import TreeSelect.Proofs.Pattern.Spellings
import TreeSelect.Proofs.Pattern.Ways
import TreeSelect.Proofs.Registry.Invariant
import TreeSelect.Proofs.Registry.Ledger
import TreeSelect.Proofs.Registry.Readings
import TreeSelect.Proofs.Registry.Runs
import TreeSelect.Proofs.Registry.Safety
import TreeSelect.Proofs.Registry.Sources
import TreeSelect.Proofs.Selector.CheckedReading
import TreeSelect.Proofs.Selector.Comparisons
import TreeSelect.Proofs.Selector.Results
import TreeSelect.Proofs.Text.Escapes
import TreeSelect.Proofs.Text.Hexadecimal
import TreeSelect.Proofs.Text.Quoting
import TreeSelect.Proofs.Text.Slicing
import TreeSelect.Proofs.Text.Words
import TreeSelect.Proofs.Tree.Image
import TreeSelect.Proofs.Tree.Kinds
import TreeSelect.Proofs.Tree.Lines
import TreeSelect.Proofs.Tree.Links
import TreeSelect.Proofs.Tree.Listing
import TreeSelect.Proofs.Tree.Navigation
import TreeSelect.Proofs.Tree.Paths
import TreeSelect.Proofs.Tree.Texts
import TreeSelect.Proofs.Warnings
import TreeSelect.Registry
import TreeSelect.Selector
import TreeSelect.Selector.Comparison
import TreeSelect.Selector.Error
import TreeSelect.Selector.Printer
import TreeSelect.Selector.Pseudo
import TreeSelect.Selector.Reading
import TreeSelect.Selector.Token
import TreeSelect.Text.Alphanumeric
import TreeSelect.Text.Blank
import TreeSelect.Text.Hexadecimal
import TreeSelect.Text.Literal
import TreeSelect.Text.Ranges
import TreeSelect.Text.Record
import TreeSelect.Text.Slice
import TreeSelect.Text.Unquote
import TreeSelect.Text.Visible
import TreeSelect.Tree
import TreeSelect.Tree.Arena
import TreeSelect.Tree.Outline
import TreeSelect.Warnings
