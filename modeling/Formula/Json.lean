/-
JSON values and their two renderings: compact, and indented by two spaces with one element a line. The fields of an object
are kept in increasing order of their names, each name once.
-/
import Formula.Json.Number

namespace Formula

/-- a JSON value -/
inductive Json where
  | null
  | bool (b : Bool)
  | number (n : JsonNumber)
  | string (s : String)
  | array (items : List Json)
  | object (fields : List (String × Json))

namespace Json

/-! ## Objects -/

/-- puts a field at its place; an older one of that name is replaced -/
def insertField (name : String) (value : Json) : List (String × Json) → List (String × Json)
  | [] => [(name, value)]
  | (other, v) :: rest =>
    if name < other then (name, value) :: (other, v) :: rest
    else if name = other then (name, value) :: rest
    else (other, v) :: insertField name value rest

/-! ## Strings -/

/-- two hexadecimal digits -/
def hexByte (n : Nat) : List Char := [Nat.digitChar (n / 16), Nat.digitChar (n % 16)]

/-- a character as it stands in a JSON string -/
def escapeChar (c : Char) : List Char :=
  match c with
  | '"' => ['\\', '"']
  | '\\' => ['\\', '\\']
  | '\x08' => ['\\', 'b']
  | '\x0c' => ['\\', 'f']
  | '\n' => ['\\', 'n']
  | '\r' => ['\\', 'r']
  | '\t' => ['\\', 't']
  | c => if c.toNat < 0x20 then '\\' :: 'u' :: '0' :: '0' :: hexByte c.toNat else [c]

/-- a JSON string -/
def stringText (s : String) : String :=
  String.ofList ('"' :: (s.toList.flatMap escapeChar ++ ['"']))

/-! ## Rendering -/

def boolText (b : Bool) : String := if b then "true" else "false"

mutual

/-- the compact text of a value -/
def compact : Json → String
  | .null => "null"
  | .bool b => boolText b
  | .number n => n.text
  | .string s => stringText s
  | .array items => "[" ++ ",".intercalate (compactItems items) ++ "]"
  | .object fields => "\x7b" ++ ",".intercalate (compactFields fields) ++ "\x7d"

def compactItems : List Json → List String
  | [] => []
  | item :: rest => item.compact :: compactItems rest

def compactFields : List (String × Json) → List String
  | [] => []
  | (name, value) :: rest => (stringText name ++ ":" ++ value.compact) :: compactFields rest

end

/-- a new line at some depth -/
def newline (depth : Nat) : String := "\n" ++ String.ofList (List.replicate (2 * depth) ' ')

/-- elements between brackets, each on a line of its own at `depth + 1`; nothing between the brackets if there are none -/
def block (opener closer : String) (depth : Nat) (elements : List String) : String :=
  match elements with
  | [] => opener ++ closer
  | elements =>
    opener ++ newline (depth + 1) ++ ("," ++ newline (depth + 1)).intercalate elements ++ newline depth ++ closer

mutual

/-- the indented text of a value that stands at `depth` -/
def indented (depth : Nat) : Json → String
  | .null => "null"
  | .bool b => boolText b
  | .number n => n.text
  | .string s => stringText s
  | .array items => block "[" "]" depth (indentedItems (depth + 1) items)
  | .object fields => block "\x7b" "\x7d" depth (indentedFields (depth + 1) fields)

def indentedItems (depth : Nat) : List Json → List String
  | [] => []
  | item :: rest => item.indented depth :: indentedItems depth rest

def indentedFields (depth : Nat) : List (String × Json) → List String
  | [] => []
  | (name, value) :: rest => (stringText name ++ ": " ++ value.indented depth) :: indentedFields depth rest

end

/-- the text with one element a line -/
def pretty (j : Json) : String := j.indented 0

end Json

end Formula
