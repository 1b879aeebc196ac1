/-
Building an expression tree from tokens.

The outline of the token list is walked from left to right into a flat buffer: leaves for numbers, strings and variables,
finished calls, the folded contents of groups, and placeholders for operators and reserved words. Commas only separate.
The buffer is folded by precedence, and a whole formula must leave one entry. Groups may not be nested deeper than the
limit, nor may an entry be higher.
-/
import Formula.Number.Canonical
import Formula.Outline
import Formula.Parsing.Entry
import Formula.Variable

namespace Formula

/-- the nesting limit unless another is asked for -/
def defaultMaxDepth : Nat := 256

/-- what a formula is read against: the variables and the nesting limit -/
structure Scope where
  vars : List Variable := []
  maxDepth : Nat := defaultMaxDepth
deriving Repr

namespace Scope

/-! ## Single tokens -/

/-- a number leaf for `text` -/
def numberLeaf (text : String) (position : Position) : Except ParseError Node :=
  match canonicalize text with
  | some canonical => .ok (.number canonical)
  | none => .error (.invalidNumber text position)

/-- the first variable of this name -/
def find? (s : Scope) (name : String) : Option Variable := s.vars.find? (·.name == name)

/-- the leaf for a variable, at the place of its name -/
def variableLeaf (s : Scope) (t : Token) : Except ParseError Node :=
  match s.find? t.text with
  | none => .error (.undefinedIdentifier t.text t.position)
  | some v =>
    match v.kind with
    | .number => numberLeaf v.value t.position
    | kind => .ok (.leaf kind v.value)

/-- the leaf or placeholder that a single token stands for. A function name on its own lacks its argument list. -/
def tokenNode (s : Scope) (t : Token) : Except ParseError Node :=
  match t.kind with
  | .ident => if isFunctionName t.text then .error (.expectedParen t.text t.position) else s.variableLeaf t
  | .param => s.variableLeaf t
  | .number => numberLeaf t.text t.position
  | .string => .ok (.string (Variable.interpolate s.vars t.text))
  | .operator | .keyword => .ok (.placeholder t.text)

/-! ## The outline -/

/-- a call on finished arguments, within the limit -/
def callEntry (s : Scope) (name : String) (args : List Entry) : Traced ParseError Entry := do
  .report (.built name args.length)
  let height := 1 + tallest args
  if s.maxDepth < height then .fail (.nestingTooDeep s.maxDepth)
  else return ⟨.call name (args.map (·.node)), height⟩

mutual

/-- the entries of a list of items, `depth` groups deep -/
def entries (s : Scope) (depth : Nat) : List Item → Traced ParseError (List Entry)
  | [] => return []
  | .token t :: rest =>
    if t.isOperator "," then s.entries depth rest
    else do
      let node ← .ofExcept (s.tokenNode t)
      let more ← s.entries depth rest
      return .flat node :: more
  | .group g :: rest => do
    let inner ← s.groupEntries depth g
    let more ← s.entries depth rest
    return inner ++ more
  | .call name g :: rest => do
    let args ← s.groupEntries depth g
    let entry ← s.callEntry name.text args
    let more ← s.entries depth rest
    return entry :: more

/-- the folded entries of a group that stands `depth` groups deep -/
def groupEntries (s : Scope) (depth : Nat) : Group → Traced ParseError (List Entry)
  | ⟨opener, body, closer?⟩ =>
    if s.maxDepth < depth + 1 then .fail (.nestingTooDeep s.maxDepth)
    else do
      let inner ← s.entries (depth + 1) body
      let folded ← foldLevels s.maxDepth precedence inner
      match closer? with
      | some _ => return folded
      | none => .fail (.unclosedParen opener.position)

end

/-- the one tree that is left, if there is one -/
def single (entries : List Entry) : Except ParseError Node :=
  match entries with
  | [e] => .ok e.node
  | es => .error (.notSingleNode es.length)

/-- builds the tree of a token list, with reports -/
def trace (s : Scope) (tokens : List Token) : Traced ParseError Node := do
  .report (.parsing tokens.length s.vars.length)
  let outline := Outline.of tokens
  let entries ← s.entries 0 outline.items
  let folded ← foldLevels s.maxDepth precedence entries
  match outline.breaks with
  | b :: _ =>
    .fail (.trailingTokens (tokens.length - (b.rest.length + 1)) tokens.length b.closer.text b.closer.position)
  | [] => .ofExcept (single folded)

/-- builds the tree of a token list -/
def parse (s : Scope) (tokens : List Token) : Except ParseError Node := (s.trace tokens).outcome

end Scope

end Formula
