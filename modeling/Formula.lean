import Formula.Position
import Formula.Vocabulary
import Formula.Token
import Formula.Token.Lexer
import Formula.Number.Power
import Formula.Number.Binary64
import Formula.Number.Decimal
import Formula.Number.Canonical
import Formula.Number.Shortest
import Formula.Text.Hidden
import Formula.Text.Quoted
import Formula.Text.Replace
import Formula.Node
import Formula.Variable
import Formula.Trace
import Formula.Outline
import Formula.Parsing.Error
import Formula.Parsing.Entry
import Formula.Parsing
import Formula.Evaluation.Error
import Formula.Registry
import Formula.Registry.Builtin
import Formula.Evaluation
import Formula.Interpreter
import Formula.Json.Number
import Formula.Json
import Formula.Json.Reader
import Formula.Node.Json
import Formula.Variable.Definition
import Formula.Manual
import Formula.CommandLine.Arguments
import Formula.CommandLine.Help
import Formula.CommandLine
import Formula.Main
import Formula.Proofs.Derivation
import Formula.Proofs.Precedence
import Formula.Proofs.Arguments
import Formula.Proofs.Failure
import Formula.Proofs.Blame
import Formula.Proofs.Commas
import Formula.Proofs.Parentheses
import Formula.Proofs.Frontier
import Formula.Proofs.CanonicalText
import Formula.Proofs.Spacing
import Formula.Proofs.Lexemes
import Formula.Proofs.Readings
import Formula.Proofs.Tiling
import Formula.Proofs.Joining
import Formula.Proofs.RoundTrip
import Formula.Proofs.NestingLimit
import Formula.Proofs.ParsingLimit
import Formula.Proofs.Contexts
import Formula.Proofs.Substitution
import Formula.Proofs.Shape
import Formula.Proofs.Values
import Formula.Proofs.Numerals
import Formula.Proofs.Monotonicity
import Formula.Proofs.Amounts
import Formula.Proofs.Reached
import Formula.Proofs.Reports
import Formula.Proofs.Verbosity
import Formula.Proofs.Overflow
import Formula.Proofs.TextFunctions
import Formula.Proofs.AbsoluteValue
import Formula.Proofs.Positions
import Formula.Proofs.DeclaredClasses
import Formula.Proofs.LexicalErrors
import Formula.Proofs.EvaluationLimit
import Formula.Proofs.Dependencies
import Formula.Proofs.Characters
import Formula.Proofs.VariableOrder
import Formula.Proofs.Joined
import Formula.Proofs.JsonSpelling
import Formula.Proofs.JsonText
import Formula.Proofs.JsonLayout
import Formula.Proofs.TreeTexts
import Formula.Proofs.Definitions
import Formula.Proofs.SpecTexts
import Formula.Proofs.StandardInput
import Formula.Proofs.Sessions
import Formula.Proofs.Interpolation
