/-
Two notations for variables: `NAME:TYPE=VALUE` for one, and a JSON array of objects with `name`, `type` and `value` for a
list of them. In the first the value starts after the first `=` and the type after the last `:` before that. In the second
a type that is left out is `NULL` for a value that is null or left out, and `STRING` for any other.
-/
import Formula.Json.Reader
import Formula.Variable

namespace Formula

/-- why a text does not define variables -/
inductive DefinitionError where
  /-- the text is not JSON -/
  | notJson (text : String)
  /-- no `=` -/
  | notSpec (spec : String)
  /-- no `:` before the `=` -/
  | noType (spec : String)
  /-- nothing before the type -/
  | emptyName (spec : String)
  /-- a type that is none, for the variable if it has been named -/
  | unknownType (name? : Option String) (type : String)
  /-- JSON, but no array -/
  | notArray
  /-- an element that is no object -/
  | notObject (item : Json)
  /-- a name that is no text, or empty -/
  | badName (name : Json)
  /-- a type that is no text -/
  | badType (name : String) (type : Json)
  /-- a value that is neither text, number nor null -/
  | badValue (name : String) (value : Json)

/-- the wording of a definition error; what is wrong with a text that is not JSON is told by `notJson` -/
def DefinitionError.message (notJson : String → String) : DefinitionError → String
  | .notJson text => "Invalid JSON: " ++ notJson text
  | .notSpec spec => "Invalid variable: '" ++ spec ++ "' is not NAME:TYPE=VALUE"
  | .noType spec => "Invalid variable: '" ++ spec ++ "' has no :TYPE"
  | .emptyName spec => "Invalid variable: '" ++ spec ++ "' has an empty name"
  | .unknownType none type => "Invalid variable: " ++ LeafKind.unknown type
  | .unknownType (some name) type => "Invalid variable: " ++ name ++ ": " ++ LeafKind.unknown type
  | .notArray => "Invalid variable: expected a JSON array of variables"
  | .notObject item => "Invalid variable: expected an object, got " ++ item.compact
  | .badName name => "Invalid variable: variable name must be a non-empty string, got " ++ name.compact
  | .badType name type => "Invalid variable: " ++ name ++ ": type must be a string, got " ++ type.compact
  | .badValue name value =>
    "Invalid variable: " ++ name ++ ": value must be a string, number or null, got " ++ value.compact

namespace Variable

/-! ## One variable as text -/

/-- what stands before and after the first `mark` -/
def splitFirst? (mark : Char) (cs : List Char) : Option (List Char × List Char) :=
  match cs.dropWhile (· != mark) with
  | [] => none
  | _ :: rest => some (cs.takeWhile (· != mark), rest)

/-- what stands before and after the last `mark` -/
def splitLast? (mark : Char) (cs : List Char) : Option (List Char × List Char) :=
  (splitFirst? mark cs.reverse).map fun (after, before) => (before.reverse, after.reverse)

/-- the kind named by `type`, or a complaint -/
def readKind (name? : Option String) (type : String) : Except DefinitionError LeafKind :=
  match LeafKind.ofText? type with
  | some kind => .ok kind
  | none => .error (.unknownType name? type)

/-- reads `NAME:TYPE=VALUE` -/
def ofSpec (spec : String) : Except DefinitionError Variable :=
  match splitFirst? '=' spec.toList with
  | none => .error (.notSpec spec)
  | some (head, value) =>
    match splitLast? ':' head with
    | none => .error (.noType spec)
    | some ([], _) => .error (.emptyName spec)
    | some (name, type) => do
      let kind ← readKind none (String.ofList type)
      return ⟨String.ofList name, kind, String.ofList value⟩

/-! ## A list of variables as JSON -/

/-- the name of a variable -/
def nameOfJson (fields : List (String × Json)) : Except DefinitionError String :=
  match fields.lookup "name" with
  | some (.string name) => if name = "" then .error (.badName (.string name)) else .ok name
  | other => .error (.badName (other.getD .null))

/-- the kind of a variable, given its value -/
def kindOfJson (name : String) (type? : Option Json) (value : Json) : Except DefinitionError LeafKind :=
  match type?, value with
  | some (.string type), _ => readKind (some name) type
  | some type, _ => .error (.badType name type)
  | none, .null => .ok .null
  | none, _ => .ok .string

/-- the text of a variable's value -/
def valueOfJson (name : String) : Json → Except DefinitionError String
  | .string s => .ok s
  | .number n => .ok n.text
  | .null => .ok LeafKind.null.tag
  | other => .error (.badValue name other)

/-- reads one element of the array -/
def ofJson : Json → Except DefinitionError Variable
  | .object fields => do
    let name ← nameOfJson fields
    let value := (fields.lookup "value").getD .null
    let kind ← kindOfJson name (fields.lookup "type") value
    let text ← valueOfJson name value
    return ⟨name, kind, text⟩
  | item => .error (.notObject item)

/-- reads a JSON array of variables -/
def listOfJson (text : String) : Except DefinitionError (List Variable) :=
  match Json.read? text with
  | none => .error (.notJson text)
  | some (.array items) => items.mapM ofJson
  | some _ => .error .notArray

end Variable

end Formula
