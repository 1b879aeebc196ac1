/-
Why an expression tree has no value.
-/
namespace Formula

/-- how many arguments a function takes -/
inductive Arity where
  | exactly (n : Nat)
  | either (least most : Nat)
deriving DecidableEq, Repr

def Arity.text : Arity → String
  | .exactly n => toString n
  | .either least most => toString least ++ " or " ++ toString most

/-- why a tree has no value -/
inductive EvalError where
  /-- nothing is registered under the tag -/
  | unknownFunction (tag : String)
  /-- the wrong number of arguments -/
  | arity (function : String) (expected : Arity) (got : Nat)
  /-- an argument whose text is no number -/
  | invalidNumber (function text : String)
  /-- a number that is no character's code, clamped to 64 signed bits -/
  | invalidCodepoint (function : String) (value : Int)
  /-- an argument that is not a single text -/
  | missingValue (function tag : String)
  /-- raw text among the arguments of a function -/
  | malformedNode (tag : String)
  /-- the evaluation ended in something that is no value -/
  | notReduced (tag : String)
  /-- more nesting than the limit allows -/
  | nestingTooDeep (limit : Nat)
deriving DecidableEq, Repr

/-- the wording of an evaluation error -/
def EvalError.message : EvalError → String
  | .unknownFunction tag =>
    "the function " ++ tag ++ " either is invalid or hasn't been implemented by this library"
  | .arity function expected got =>
    "incorrect number of arguments, " ++ toString got ++ ", to " ++ function ++ " (expected " ++ expected.text ++ ")"
  | .invalidNumber function text => function ++ ": '" ++ text ++ "' is not a valid number"
  | .invalidCodepoint function value => function ++ ": " ++ toString value ++ " is not a valid character code"
  | .missingValue function tag => function ++ ": expected a value but got a " ++ tag ++ " node"
  | .malformedNode tag => "node " ++ tag ++ " holds a raw value where a sub-expression was expected"
  | .notReduced tag => "expression reduced to " ++ tag ++ " instead of a value"
  | .nestingTooDeep limit => "expression nesting exceeds the limit of " ++ toString limit

end Formula
