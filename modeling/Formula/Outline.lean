/-
The bracket structure of a token list.

`Outline.of` groups the tokens by their parentheses, reading from the right: a `(` takes everything up to its `)` into a
group, or everything that is left if there is no such `)`, and a function name in front of a group becomes a call. A `)`
with no `(` before it ends the outline; what follows it is kept apart as a `Break`. Nothing here can fail: what the
structure means, and whether it is acceptable, is decided by whoever walks it.
-/
import Formula.Token
import Formula.Vocabulary

namespace Formula

mutual

/-- a parenthesised stretch of tokens -/
structure Group where
  opener : Token
  body : List Item
  /-- the matching `)`, if the tokens have one -/
  closer? : Option Token

/-- an element of an outline -/
inductive Item where
  /-- a token that is neither a parenthesis nor a called function -/
  | token (t : Token)
  | group (g : Group)
  /-- a function name directly followed by a group -/
  | call (name : Token) (g : Group)

end

/-- a `)` that closes nothing, the tokens after it, and their items up to the next such `)` -/
structure Break where
  closer : Token
  rest : List Token
  items : List Item

/-- the items up to the first `)` that closes nothing, and the breaks from there on -/
structure Outline where
  items : List Item
  breaks : List Break

namespace Token

/-- is this the name of a function of the language? -/
def isFunction (t : Token) : Bool := t.kind == .ident && isFunctionName t.text

end Token

namespace Outline

/-- a group opened in front of an outline: it ends at the first break -/
def openGroup (opener : Token) (o : Outline) : Outline :=
  match o.breaks with
  | [] => ⟨[.group ⟨opener, o.items, none⟩], []⟩
  | b :: breaks => ⟨.group ⟨opener, o.items, some b.closer⟩ :: b.items, breaks⟩

/-- any other token in front of an outline: a function name takes the group that follows it -/
def pushToken (t : Token) (o : Outline) : Outline :=
  match t.isFunction, o.items with
  | true, .group g :: items => ⟨.call t g :: items, o.breaks⟩
  | _, items => ⟨.token t :: items, o.breaks⟩

/-- the outline of a token list -/
def of : List Token → Outline
  | [] => ⟨[], []⟩
  | t :: rest =>
    let o := of rest
    if t.isOperator "(" then openGroup t o
    else if t.isOperator ")" then ⟨[], ⟨t, rest, o.items⟩ :: o.breaks⟩
    else pushToken t o

end Outline

end Formula
