/-
Reading JSON.

The text is first split into lexemes, then a machine with a stack of open arrays and objects takes one lexeme at a time
(`step`); reading is a fold of it. Strict JSON is accepted and nothing else: no comments, no trailing commas, no text after
the value, no unescaped control characters, no half of a surrogate pair. Opening more than `maxDepth` arrays and objects
inside each other is refused. A name that occurs twice in an object keeps its last value.
-/
import Formula.Json

namespace Formula.Json

/-! ## Strings -/

/-- the value of a hexadecimal digit -/
def hexDigit? (c : Char) : Option Nat :=
  if c.isDigit then some (c.toNat - '0'.toNat)
  else if 'a' ≤ c ∧ c ≤ 'f' then some (c.toNat - 'a'.toNat + 10)
  else if 'A' ≤ c ∧ c ≤ 'F' then some (c.toNat - 'A'.toNat + 10)
  else none

/-- the value of the escape `\uXXXX` at the front -/
def codeUnit? : List Char → Option Nat
  | '\\' :: 'u' :: a :: b :: c :: d :: _ => do
    let a ← hexDigit? a
    let b ← hexDigit? b
    let c ← hexDigit? c
    let d ← hexDigit? d
    return ((a * 16 + b) * 16 + c) * 16 + d
  | _ => none

/-- a character written by one code unit or by a surrogate pair, and how many characters that takes -/
def escapedCode? (cs : List Char) : Option (Char × Nat) := do
  let high ← codeUnit? cs
  if 0xd800 ≤ high ∧ high < 0xdc00 then
    let low ← codeUnit? (cs.drop 6)
    if 0xdc00 ≤ low ∧ low < 0xe000 then
      return (Char.ofNat (0x10000 + (high - 0xd800) * 0x400 + (low - 0xdc00)), 12)
    else none
  else if 0xdc00 ≤ high ∧ high < 0xe000 then none
  else return (Char.ofNat high, 6)

/-- the character after a backslash, for the escapes of one letter -/
def letterEscape? : Char → Option Char
  | '"' => some '"'
  | '\\' => some '\\'
  | '/' => some '/'
  | 'b' => some '\x08'
  | 'f' => some '\x0c'
  | 'n' => some '\n'
  | 'r' => some '\r'
  | 't' => some '\t'
  | _ => none

/-- the character written at the front of a string's inside, and how many characters that takes -/
def writtenChar? : List Char → Option (Char × Nat)
  | '\\' :: 'u' :: rest => escapedCode? ('\\' :: 'u' :: rest)
  | '\\' :: c :: _ => (letterEscape? c).map fun c => (c, 2)
  | c :: _ => if c = '\\' ∨ c.toNat < 0x20 then none else some (c, 1)
  | [] => none

/-- the inside of a string up to its closing quote, and the rest; `skip` characters belong to the last one read -/
def stringBody? : (skip : Nat) → List Char → Option (List Char × List Char)
  | _, [] => none
  | skip + 1, _ :: rest => stringBody? skip rest
  | 0, c :: rest =>
    if c = '"' then some ([], rest)
    else
      match writtenChar? (c :: rest) with
      | none => none
      | some (char, width) => (stringBody? (width - 1) rest).map fun (body, rest) => (char :: body, rest)

/-! ## Lexemes -/

/-- a unit of JSON text -/
inductive Lexeme where
  | beginArray
  | endArray
  | beginObject
  | endObject
  | comma
  | colon
  | string (s : String)
  /-- a value that is neither a string nor a container -/
  | scalar (value : Json)

/-- the words that are values -/
def words : List (String × Json) := [("null", .null), ("true", .bool true), ("false", .bool false)]

/-- the word at the front and the rest -/
def splitWord? (cs : List Char) : Option (Json × List Char) :=
  (words.find? fun (word, _) => word.toList.isPrefixOf cs).map fun (word, value) => (value, cs.drop word.length)

/-- the number at the front and the rest -/
def splitNumber? (cs : List Char) : Option (Json × List Char) := do
  let (literal, rest) ← JsonNumber.splitLiteral? cs
  let value ← literal.value?
  return (.number value, rest)

/-- the lexeme at the front, which is no blank, and the rest -/
def splitLexeme? : List Char → Option (Lexeme × List Char)
  | [] => none
  | c :: rest =>
    match c with
    | '[' => some (.beginArray, rest)
    | ']' => some (.endArray, rest)
    | '\x7b' => some (.beginObject, rest)
    | '\x7d' => some (.endObject, rest)
    | ',' => some (.comma, rest)
    | ':' => some (.colon, rest)
    | '"' => (stringBody? 0 rest).map fun (body, rest) => (.string (String.ofList body), rest)
    | c =>
      if c = '-' ∨ c.isDigit then (splitNumber? (c :: rest)).map fun (value, rest) => (.scalar value, rest)
      else (splitWord? (c :: rest)).map fun (value, rest) => (.scalar value, rest)

def isBlank (c : Char) : Bool := c == ' ' || c == '\n' || c == '\t' || c == '\r'

/-- all lexemes of a text; `skip` characters belong to the last one -/
def lexemes? : (skip : Nat) → List Char → Option (List Lexeme)
  | _, [] => some []
  | skip + 1, _ :: rest => lexemes? skip rest
  | 0, c :: rest =>
    if isBlank c then lexemes? 0 rest
    else
      match splitLexeme? (c :: rest) with
      | none => none
      | some (lexeme, tail) => (lexemes? (rest.length - tail.length) rest).map (lexeme :: ·)

/-! ## Values -/

/-- an open container -/
inductive Frame where
  /-- an array with the items so far, the last one first -/
  | array (items : List Json)
  /-- an object with the fields so far -/
  | object (fields : List (String × Json))
  /-- an object that waits for the value of a field -/
  | field (fields : List (String × Json)) (name : String)

/-- what may come next -/
inductive Mode where
  | value
  /-- a value or the end of an array that has no items yet -/
  | firstItem
  /-- a name or the end of an object that has no fields yet -/
  | firstName
  | name
  | colon
  /-- a comma or the end of the innermost container -/
  | separator
  /-- nothing: the value is complete -/
  | finished (value : Json)

/-- the reader between two lexemes -/
structure State where
  mode : Mode
  frames : List Frame

namespace State

def initial : State := ⟨.value, []⟩

/-- a complete value goes into the innermost container -/
def deliver (value : Json) : List Frame → Option State
  | [] => some ⟨.finished value, []⟩
  | .array items :: frames => some ⟨.separator, .array (value :: items) :: frames⟩
  | .field fields name :: frames => some ⟨.separator, .object (insertField name value fields) :: frames⟩
  | .object _ :: _ => none

/-- the end of an array -/
def closeArray : List Frame → Option State
  | .array items :: frames => deliver (.array items.reverse) frames
  | _ => none

/-- the end of an object -/
def closeObject : List Frame → Option State
  | .object fields :: frames => deliver (.object fields) frames
  | _ => none

/-- a lexeme where a value is due -/
def startValue (maxDepth : Nat) (frames : List Frame) : Lexeme → Option State
  | .string s => deliver (.string s) frames
  | .scalar value => deliver value frames
  | .beginArray => if frames.length < maxDepth then some ⟨.firstItem, .array [] :: frames⟩ else none
  | .beginObject => if frames.length < maxDepth then some ⟨.firstName, .object [] :: frames⟩ else none
  | _ => none

/-- the name of a field -/
def startField (frames : List Frame) (name : String) : Option State :=
  match frames with
  | .object fields :: frames => some ⟨.colon, .field fields name :: frames⟩
  | _ => none

/-- a comma or an end after a complete element -/
def continueWith (frames : List Frame) : Lexeme → Option State
  | .comma =>
    match frames with
    | .array _ :: _ => some ⟨.value, frames⟩
    | .object _ :: _ => some ⟨.name, frames⟩
    | _ => none
  | .endArray => closeArray frames
  | .endObject => closeObject frames
  | _ => none

/-- takes one lexeme -/
def step (maxDepth : Nat) (s : State) (lexeme : Lexeme) : Option State :=
  match s.mode, lexeme with
  | .value, lexeme => startValue maxDepth s.frames lexeme
  | .firstItem, .endArray => closeArray s.frames
  | .firstItem, lexeme => startValue maxDepth s.frames lexeme
  | .firstName, .endObject => closeObject s.frames
  | .firstName, .string name => startField s.frames name
  | .name, .string name => startField s.frames name
  | .colon, .colon => some ⟨.value, s.frames⟩
  | .separator, lexeme => continueWith s.frames lexeme
  | _, _ => none

/-- the value read, if it is complete -/
def result? (s : State) : Option Json :=
  match s.mode with
  | .finished value => some value
  | _ => none

end State

/-- how deep arrays and objects may be nested unless another limit is given -/
def defaultMaxDepth : Nat := 127

/-- reads a JSON text with at most `maxDepth` nested arrays and objects -/
def readWithin? (maxDepth : Nat) (text : String) : Option Json := do
  let lexemes ← lexemes? 0 text.toList
  let final ← lexemes.foldlM (State.step maxDepth) State.initial
  final.result?

/-- reads a JSON text -/
def read? (text : String) : Option Json := readWithin? defaultMaxDepth text

end Formula.Json
