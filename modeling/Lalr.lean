import Lalr.Code.Compiled
import Lalr.Main
import Lalr.Parser.Binding
import Lalr.Pattern.Literal
import Lalr.Proofs.Automaton.Canonical
import Lalr.Proofs.Automaton.Closure
import Lalr.Proofs.Automaton.Exploration
import Lalr.Proofs.Automaton.Path
import Lalr.Proofs.Automaton.Validity
import Lalr.Proofs.Conflicts
import Lalr.Proofs.Construction
import Lalr.Proofs.Digraph
import Lalr.Proofs.Exactness
import Lalr.Proofs.Extended
import Lalr.Proofs.Fallible
import Lalr.Proofs.First
import Lalr.Proofs.Follow.Condensation
import Lalr.Proofs.Follow.Equations
import Lalr.Proofs.Follow.Solution
import Lalr.Proofs.Follow.Totality
import Lalr.Proofs.Grammar.Context
import Lalr.Proofs.Grammar.Derivation
import Lalr.Proofs.Grammar.Productions
import Lalr.Proofs.Grammar.WellFormed
import Lalr.Proofs.Groups
import Lalr.Proofs.Keyed
import Lalr.Proofs.Lexer.Conservation
import Lalr.Proofs.Lexer.Gathered
import Lalr.Proofs.Lexer.Lexicon
import Lalr.Proofs.Lexer.Munch
import Lalr.Proofs.Lexer.Transparency
import Lalr.Proofs.Lookahead
import Lalr.Proofs.Outcome
import Lalr.Proofs.Parser.Completeness
import Lalr.Proofs.Parser.Effects
import Lalr.Proofs.Parser.ErrorDetection
import Lalr.Proofs.Parser.Fuel
import Lalr.Proofs.Parser.Progress
import Lalr.Proofs.Parser.Reductions
import Lalr.Proofs.Parser.Run
import Lalr.Proofs.Parser.Safety
import Lalr.Proofs.Parser.Settling
import Lalr.Proofs.Parser.Soundness
import Lalr.Proofs.Parser.Stack
import Lalr.Proofs.Parser.Termination
import Lalr.Proofs.Parser.Tree
import Lalr.Proofs.Parser.Value
import Lalr.Proofs.Parser.Vanishing
import Lalr.Proofs.Pattern.CharClass
import Lalr.Proofs.Pattern.Pruning
import Lalr.Proofs.Table
import Lalr.Proofs.Table.Clash
import Lalr.Proofs.Totality
import Lalr.Proofs.Lexer.Yield
import Lalr.Proofs.Parser.OnDemand
import Lalr.Proofs.Module.Section
import Lalr.Proofs.Module.Merge
import Lalr.Proofs.Module.Generated
import Lalr.Proofs.Text.Replace
import Lalr.Proofs.Module.Signature
import Lalr.Proofs.Module.Signing
import Lalr.Proofs.Module.Validation
import Lalr.Proofs.Description.Lexemes
import Lalr.Proofs.Description.Layout
import Lalr.Proofs.Description.Written
import Lalr.Proofs.Description.Tree
import Lalr.Proofs.Description.Reading
import Lalr.Proofs.Follow.Components
import Lalr.Proofs.Follow.Least
import Lalr.Proofs.Follow.Sweep
import Lalr.Proofs.Groups.Calls
import Lalr.Proofs.Module.Emitted
import Lalr.Proofs.Module.Regeneration
import Lalr.Proofs.First.Exact
import Lalr.Proofs.Recognition
import Lalr.Proofs.Parser.Evaluation
import Lalr.Proofs.Text.Margin
import Lalr.Proofs.Text.Digit
import Lalr.Proofs.Code.Placeholder
import Lalr.Proofs.Code.Parameters
import Lalr.Proofs.Automaton.Numbering
import Lalr.Proofs.Description.Unquote
import Lalr.Proofs.CommandLine.Generation
import Lalr.Proofs.Text.Indent
import Lalr.Proofs.Code.Locality
import Lalr.Proofs.Code.Lexeme
import Lalr.Proofs.Code.Lexes
import Lalr.Proofs.Code.Quoting
import Lalr.Proofs.Code.Rendered
import Lalr.Proofs.Code.Reading
import Lalr.Proofs.Code.Opening
import Lalr.Proofs.Code.Bracketed
import Lalr.Proofs.Code.Wrapped
import Lalr.Proofs.Code.Function
import Lalr.Proofs.Code.Call
import Lalr.Proofs.Pattern.Reading
import Lalr.Proofs.Pattern.Literal
import Lalr.Proofs.Table.Requests
import Lalr.Proofs.Module.Data
