/-
Why a list of tokens does not form an expression tree.
-/
import Formula.Position

namespace Formula

/-- an operand's place -/
inductive Side where
  | left
  | right
deriving DecidableEq, Repr

def Side.name : Side → String
  | .left => "left"
  | .right => "right"

/-- why tokens do not form a tree -/
inductive ParseError where
  /-- neither a function nor a variable -/
  | undefinedIdentifier (name : String) (position : Position)
  /-- a function name without an argument list -/
  | expectedParen (name : String) (position : Position)
  /-- a `(` without its `)` -/
  | unclosedParen (position : Position)
  /-- an operator with nothing on one side -/
  | missingOperand (operator : String) (side : Side)
  /-- the formula left more or fewer than one tree -/
  | notSingleNode (count : Nat)
  /-- a `)` without its `(`: its index, the number of tokens, its text and position -/
  | trailingTokens (stop total : Nat) (token : String) (position : Position)
  /-- text that is no number -/
  | invalidNumber (text : String) (position : Position)
  /-- more nesting than the limit allows -/
  | nestingTooDeep (limit : Nat)
deriving DecidableEq, Repr

namespace ParseError

/-- the wording of a parse error -/
def message : ParseError → String
  | .undefinedIdentifier name p => "the identifier '" ++ name ++ "' was not found (at " ++ p.text ++ ")"
  | .expectedParen name p => "expected '(' after " ++ name ++ " (at " ++ p.text ++ ")"
  | .unclosedParen p => "missing ')' for '(' opened at " ++ p.text
  | .missingOperand operator side => "operator '" ++ operator ++ "' is missing its " ++ side.name ++ " operand"
  | .notSingleNode count => "couldn't flatten down to one node (got " ++ toString count ++ ")"
  | .trailingTokens stop total token p =>
    "parsing tokens ended at " ++ toString stop ++ ", but expected " ++ toString total ++ ": unexpected '" ++ token ++
      "' at " ++ p.text
  | .invalidNumber text p => "'" ++ text ++ "' is not a valid number (at " ++ p.text ++ ")"
  | .nestingTooDeep limit => "expression nesting exceeds the limit of " ++ toString limit

/-- the place that an error points at, if it points at one -/
def position? : ParseError → Option Position
  | .undefinedIdentifier _ p | .expectedParen _ p | .unclosedParen p | .trailingTokens _ _ _ p | .invalidNumber _ p =>
    some p
  | .missingOperand .. | .notSingleNode _ | .nestingTooDeep _ => none

end ParseError

end Formula
