/-
Evaluating expression trees. Leaves are values. Any other node needs a function registered under its tag; its arguments
are evaluated from left to right and the function is called on the results. Operators are no exception: `+` has a value
only where a function is registered under that name. The nesting of nodes that are no leaves may not exceed the limit.
-/
import Formula.Registry
import Formula.Trace

namespace Formula

/-- the functions to call and the nesting limit -/
structure Evaluator where
  registry : Registry
  maxDepth : Nat

namespace Evaluator

mutual

/-- evaluates a node that is the `depth`-th in its chain of nodes -/
def node (e : Evaluator) (depth : Nat) : Node → Traced EvalError Node
  | ⟨tag, args⟩ =>
    if isLeafTag tag then return ⟨tag, args⟩
    else if e.maxDepth < depth then .fail (.nestingTooDeep e.maxDepth)
    else
      match e.registry.get? tag with
      | none => .fail (.unknownFunction tag)
      | some function => do
        let values ← e.arguments (depth + 1) tag args
        .report (.calling tag values.length)
        .ofExcept (function values)

/-- evaluates the arguments of a node tagged `tag` -/
def arguments (e : Evaluator) (depth : Nat) (tag : String) : List Arg → Traced EvalError (List Node)
  | [] => return []
  | .value _ :: _ => .fail (.malformedNode tag)
  | .node n :: rest => do
    let value ← e.node depth n
    let more ← e.arguments depth tag rest
    return value :: more

end

/-- the text of a value -/
def text (n : Node) : Except EvalError String :=
  match n.isLeaf, n.value? with
  | true, some text => .ok text
  | _, _ => .error (.notReduced n.tag)

/-- evaluates a tree, with reports -/
def trace (e : Evaluator) (n : Node) : Traced EvalError Node := e.node 1 n

/-- evaluates a tree to a text, with reports -/
def traceText (e : Evaluator) (n : Node) : Traced EvalError String := do
  let value ← e.trace n
  .ofExcept (text value)

/-- evaluates a tree -/
def eval (e : Evaluator) (n : Node) : Except EvalError Node := (e.trace n).outcome

/-- evaluates a tree to a text -/
def evalText (e : Evaluator) (n : Node) : Except EvalError String := (e.traceText n).outcome

end Evaluator

end Formula
