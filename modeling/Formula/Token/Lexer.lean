/-
Splitting a formula into tokens.

Eight rules each say how many characters they match at the front of the remaining text. The longest match wins and a tie
goes to the rule listed first, so `<=` is one operator, `-1` is a number, `NULLS` is an identifier and `AND` is an
operator rather than a reserved word. Blanks and comments are dropped. A quote opens a string that runs to the next quote;
there are no escapes.

`scan` walks the characters once. Its first argument counts the characters that the current lexeme still covers; where it
is 0 a new lexeme starts. The result is a `TokenStream`: the tokens found, and the error that stopped the scan if there
was one. Reading from the stream yields the tokens, then that error once, then the end for ever.
-/
import Formula.Token
import Formula.Vocabulary

namespace Formula

/-- why a text cannot be split into tokens -/
inductive LexError where
  /-- no rule matches; the snippet shows the first characters of the rest -/
  | unconsumedInput (position : Position) (snippet : String)
  /-- a string has no closing quote -/
  | unterminatedString (position : Position)
deriving DecidableEq, Repr

namespace LexError

/-- the wording of a lexical error -/
def message : LexError → String
  | .unconsumedInput p snippet => "unexpected input at " ++ p.text ++ ": '" ++ snippet ++ "'"
  | .unterminatedString p => "unclosed string starting at " ++ p.text

/-- where the scan stopped -/
def position : LexError → Position
  | .unconsumedInput p _ => p
  | .unterminatedString p => p

end LexError

namespace Lexer

/-- the character that opens and closes a string -/
def quoteMark : Char := '\x27'

/-- how many characters of the rest an unmatched text is reported with -/
def snippetLength : Nat := 10

/-! ## Character classes -/

/-- letters, digits and the underscore of ASCII -/
def isWordChar (c : Char) : Bool := c.isAlphanum || c == '_'

/-- what may follow the marks of a parameter -/
def isParamChar (c : Char) : Bool := isWordChar c || c == '-'

def isBlank (c : Char) : Bool := c == ' ' || c == '\t' || c == '\n' || c == '\r'

/-! ## Widths: how many characters match at the front, 0 for no match -/

/-- how many characters at the front satisfy `p` -/
def runLength (p : Char → Bool) (cs : List Char) : Nat := (cs.takeWhile p).length

/-- the length of the longest word of `table` that the text starts with -/
def tableWidth (table : List String) (cs : List Char) : Nat :=
  table.foldr (fun word best => if word.toList.isPrefixOf cs then max word.length best else best) 0

/-- up to and including the newline, or to the end of the text -/
def lineWidth (cs : List Char) : Nat := min (runLength (· != '\n') cs + 1) cs.length

/-- `--` or `//` and the rest of the line -/
def commentWidth : List Char → Nat
  | '-' :: '-' :: rest => 2 + lineWidth rest
  | '/' :: '/' :: rest => 2 + lineWidth rest
  | _ => 0

/-- one or more `$`, then a name that may hold dashes -/
def paramWidth (cs : List Char) : Nat :=
  let marks := runLength (· == '$') cs
  let name := runLength isParamChar (cs.drop marks)
  if marks = 0 ∨ name = 0 then 0 else marks + name

def quoteWidth : List Char → Nat
  | c :: _ => if c = quoteMark then 1 else 0
  | [] => 0

/-- a point and at least one digit -/
def fractionWidth : List Char → Nat
  | '.' :: rest =>
    let digits := runLength Char.isDigit rest
    if digits = 0 then 0 else 1 + digits
  | _ => 0

/-- digits, then perhaps a fraction -/
def unsignedWidth (cs : List Char) : Nat :=
  let digits := runLength Char.isDigit cs
  if digits = 0 then 0 else digits + fractionWidth (cs.drop digits)

/-- a number literal with an optional minus sign -/
def numberWidth : List Char → Nat
  | '-' :: rest =>
    let width := unsignedWidth rest
    if width = 0 then 0 else 1 + width
  | cs => unsignedWidth cs

/-! ## Rules -/

/-- what the text matched by a rule stands for -/
inductive Reading where
  | token (kind : TokenKind)
  | blank
  | openQuote
deriving DecidableEq, Repr

/-- a lexical rule -/
structure Rule where
  reading : Reading
  width : List Char → Nat

/-- the rules in order of preference among equally long matches -/
def rules : List Rule :=
  [⟨.token .operator, tableWidth symbols⟩,
    ⟨.token .keyword, tableWidth reservedWords⟩,
    ⟨.blank, commentWidth⟩,
    ⟨.token .param, paramWidth⟩,
    ⟨.openQuote, quoteWidth⟩,
    ⟨.token .number, numberWidth⟩,
    ⟨.token .ident, runLength isWordChar⟩,
    ⟨.blank, runLength isBlank⟩]

/-- the first of the longest matches -/
def longest (cs : List Char) : List Rule → Option (Reading × Nat)
  | [] => none
  | rule :: rest =>
    match longest cs rest with
    | some (reading, width) =>
      if width ≤ rule.width cs then some (rule.reading, rule.width cs) else some (reading, width)
    | none => if rule.width cs = 0 then none else some (rule.reading, rule.width cs)

/-- what the text starts with, and how many characters that takes -/
@[irreducible]
def front? (cs : List Char) : Option (Reading × Nat) := longest cs rules

end Lexer

/-! ## Streams -/

/-- tokens to be read, and the error that follows them if there is one -/
structure TokenStream where
  tokens : List Token
  error? : Option LexError
deriving DecidableEq, Repr

namespace TokenStream

/-- the next token, or `none` at the end; the error is reported once and ends the stream -/
def next (s : TokenStream) : Except LexError (Option Token) × TokenStream :=
  match s.tokens, s.error? with
  | t :: rest, e => (.ok (some t), ⟨rest, e⟩)
  | [], some e => (.error e, ⟨[], none⟩)
  | [], none => (.ok none, s)

/-- puts a token in front -/
def push (t : Token) (s : TokenStream) : TokenStream := ⟨t :: s.tokens, s.error?⟩

/-- a stream that ends in an error straight away -/
def failure (e : LexError) : TokenStream := ⟨[], some e⟩

/-- all tokens, unless the stream ends in an error -/
def toExcept (s : TokenStream) : Except LexError (List Token) :=
  match s.error? with
  | some e => .error e
  | none => .ok s.tokens

end TokenStream

/-! ## Scanning -/

namespace Lexer

/-- scans from position `p`, where the current lexeme still covers `covered` characters -/
def scan : (covered : Nat) → (p : Position) → List Char → TokenStream
  | _, _, [] => ⟨[], none⟩
  | covered + 1, p, c :: cs => scan covered (p.after c) cs
  | 0, p, c :: cs =>
    match front? (c :: cs) with
    | none => .failure (.unconsumedInput p (String.ofList ((c :: cs).take snippetLength)))
    | some (.blank, width) => scan (width - 1) (p.after c) cs
    | some (.token kind, width) =>
      (scan (width - 1) (p.after c) cs).push ⟨kind, String.ofList ((c :: cs).take width), p⟩
    | some (.openQuote, _) =>
      let body := cs.takeWhile (· != quoteMark)
      if body.length = cs.length then .failure (.unterminatedString p)
      else (scan (body.length + 1) (p.after c) cs).push ⟨.string, String.ofList body, p⟩

end Lexer

/-- the tokens of a text as a stream -/
def TokenStream.ofText (text : String) : TokenStream :=
  Lexer.scan 0 .start text.toList

/-- splits a text into tokens, or reports the first lexical error -/
def tokenize (text : String) : Except LexError (List Token) :=
  (TokenStream.ofText text).toExcept

end Formula
