/-
Tokens: a class, a text and a position. The text of a string token leaves out its quotes; every other token's text is the
stretch of the formula that it covers.
-/
import Formula.Position

namespace Formula

/-- the classes of token -/
inductive TokenKind where
  | operator
  | keyword
  | param
  | string
  | number
  | ident
deriving DecidableEq, Repr

/-- the name of a class, as shown to the user -/
def TokenKind.name : TokenKind → String
  | .operator => "OPERATOR"
  | .keyword => "KEYWORD"
  | .param => "PARAM"
  | .string => "STRING"
  | .number => "NUMBER"
  | .ident => "IDENT"

/-- a token and the place where it starts -/
structure Token where
  kind : TokenKind
  text : String
  position : Position
deriving DecidableEq, Repr

namespace Token

/-- is this the operator or punctuation mark `symbol`? -/
def isOperator (t : Token) (symbol : String) : Bool :=
  t.kind == .operator && t.text == symbol

/-- operators and keywords are their own type; other tokens go by their class -/
def typeName (t : Token) : String :=
  match t.kind with
  | .operator | .keyword => t.text
  | kind => kind.name

/-- the token as it is written in a formula: a string gets its quotes back -/
def written (t : Token) : String :=
  match t.kind with
  | .string => "'" ++ t.text ++ "'"
  | _ => t.text

/-- `text` filled up with spaces to `width` characters, never cut -/
def padded (width : Nat) (text : String) : String :=
  text ++ String.ofList (List.replicate (width - text.length) ' ')

/-- one line of a token listing: position, class and written form in columns -/
def row (t : Token) : String :=
  padded 8 t.position.text ++ padded 10 t.kind.name ++ t.written

end Token

end Formula
