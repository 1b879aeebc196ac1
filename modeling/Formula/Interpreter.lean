/-
From the text of a formula to its tree and its value.
-/
import Formula.Evaluation
import Formula.Parsing
import Formula.Registry.Builtin
import Formula.Token.Lexer

namespace Formula

/-- why a formula has no tree or no value -/
inductive Error where
  | lex (e : LexError)
  | parse (e : ParseError)
  | eval (e : EvalError)
deriving DecidableEq, Repr

namespace Error

/-- the wording of an error, headed by the stage that failed -/
def message : Error → String
  | .lex e => "lex error: " ++ e.message
  | .parse e => "parse error: " ++ e.message
  | .eval e => "evaluation error: " ++ e.message

end Error

namespace Scope

/-- the tree of a formula, with reports -/
def traceTree (s : Scope) (formula : String) : Traced Error Node := do
  let tokens ← (Traced.ofExcept (tokenize formula)).mapError Error.lex
  (s.trace tokens).mapError Error.parse

/-- the value of a formula, with reports -/
def traceValue (s : Scope) (formula : String) : Traced Error String := do
  .report (.evaluating formula)
  let tree ← s.traceTree formula
  let value ← (Evaluator.traceText ⟨.builtin, s.maxDepth⟩ tree).mapError Error.eval
  .report (.result value)
  return value

/-- the tree of a formula -/
def tree (s : Scope) (formula : String) : Except Error Node := (s.traceTree formula).outcome

/-- the value of a formula -/
def evaluate (s : Scope) (formula : String) : Except Error String := (s.traceValue formula).outcome

end Scope

end Formula
