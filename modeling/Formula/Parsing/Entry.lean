/-
The flat buffer that a formula is first read into, and its folding.

An entry is a finished tree or a placeholder of an operator, with its height: the number of levels of calls and operations
in it. Folding goes once over the buffer for each precedence level, tightest first. An operator of the level takes the
entry before it and the entry after it, so the operators of one level associate to the left. No entry may become higher
than the limit.
-/
import Formula.Node
import Formula.Parsing.Error
import Formula.Trace

namespace Formula

/-- a tree under construction and its height -/
structure Entry where
  node : Node
  height : Nat
deriving DecidableEq

namespace Entry

/-- a leaf or a placeholder -/
def flat (node : Node) : Entry := ⟨node, 0⟩

/-- a placeholder of one of the given operators -/
def isOperator (operators : List String) (e : Entry) : Bool :=
  e.node.isPlaceholder && operators.contains e.node.tag

end Entry

/-! ## Folding -/

/-- the height of the tallest entry -/
def tallest (entries : List Entry) : Nat := entries.foldr (fun e h => max e.height h) 0

/-- `operator` over two entries, within the limit -/
def combine (limit : Nat) (operator : String) (left right : Entry) : Traced ParseError Entry :=
  let height := 1 + max left.height right.height
  if limit < height then .fail (.nestingTooDeep limit)
  else do
    .report (.folded operator left.node.tag right.node.tag)
    return ⟨.binary operator left.node right.node, height⟩

/-- folds the operators of one level over what follows the entry `left` -/
def foldFrom (limit : Nat) (operators : List String) (left : Entry) : List Entry → Traced ParseError (List Entry)
  | [] => return [left]
  | e :: rest =>
    if e.isOperator operators then
      match rest with
      | [] => .fail (.missingOperand e.node.tag .right)
      | right :: rest => do
        let whole ← combine limit e.node.tag left right
        foldFrom limit operators whole rest
    else do
      let folded ← foldFrom limit operators e rest
      return left :: folded

/-- folds the operators of one level -/
def foldLevel (limit : Nat) (operators : List String) : List Entry → Traced ParseError (List Entry)
  | [] => return []
  | e :: rest =>
    if e.isOperator operators then .fail (.missingOperand e.node.tag .left) else foldFrom limit operators e rest

/-- folds all levels, tightest first -/
def foldLevels (limit : Nat) (levels : List (List String)) (entries : List Entry) : Traced ParseError (List Entry) :=
  match levels with
  | [] => return entries
  | operators :: levels => do
    let folded ← foldLevel limit operators entries
    foldLevels limit levels folded

end Formula
