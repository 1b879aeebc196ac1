/-
The functions that have an implementation.

- `ABS(n)`: the absolute value.
- `CHR(n)`: the character with code `n`, cut toward zero.
- `CONCAT(a, b)`: one text after the other; a null side counts for nothing.
- `LTRIM(s, set)`, `RTRIM(s, set)`: `s` without the characters of `set` at its start or end; the set is a space by default.

A null argument gives null, except to `CONCAT`, which needs two of them.
-/
import Formula.Number.Canonical
import Formula.Registry

namespace Formula.Builtin

/-- the single text of an argument -/
def payload (function : String) (n : Node) : Except EvalError String :=
  match n.value? with
  | some text => .ok text
  | none => .error (.missingValue function n.tag)

/-- an argument read as a number -/
def number (function : String) (n : Node) : Except EvalError Binary64 := do
  let text ← payload function n
  match readNumber? text with
  | some x => return x
  | none => .error (.invalidNumber function text)

/-- the absolute value -/
def abs : Implementation
  | [arg] =>
    if arg.isNull then .ok .null
    else do
      let x ← number "ABS" arg
      return .number x.abs.canonical
  | args => .error (.arity "ABS" (.exactly 1) args.length)

/-- a whole number in 64 bits with a sign: beyond them, the nearest that there is -/
def saturate64 (n : Int) : Int64 := .ofInt (max Int64.minValue.toInt (min n Int64.maxValue.toInt))

/-- the same number in 32 bits without a sign, if it fits -/
def narrow32? (n : Int64) : Option UInt32 :=
  if 0 ≤ n.toInt ∧ n.toInt < UInt32.size then some (.ofNat n.toInt.toNat) else none

/-- the character with a code of 32 bits, if there is one -/
def charOfWord? (code : UInt32) : Option Char := if h : code.isValidChar then some ⟨code, h⟩ else none

/-- the character with this code, if there is one -/
def charOfCode? (code : Int64) : Option Char := (narrow32? code).bind charOfWord?

/-- the character with a given code -/
def chr : Implementation
  | [arg] =>
    if arg.isNull then .ok .null
    else do
      let x ← number "CHR" arg
      let code := saturate64 x.truncate
      match charOfCode? code with
      | some c => return .string (String.singleton c)
      | none => .error (.invalidCodepoint "CHR" code.toInt)
  | args => .error (.arity "CHR" (.exactly 1) args.length)

/-- two texts joined -/
def concat : Implementation
  | [first, second] =>
    match first.isNull, second.isNull with
    | true, true => .ok .null
    | true, false => do return .string (← payload "CONCAT" second)
    | false, true => do return .string (← payload "CONCAT" first)
    | false, false => do
      let head ← payload "CONCAT" first
      let tail ← payload "CONCAT" second
      return .string (head ++ tail)
  | args => .error (.arity "CONCAT" (.exactly 2) args.length)

/-! ## Trimming -/

/-- without the characters of `set` at the start -/
def trimStart (set cs : List Char) : List Char := cs.dropWhile set.contains

/-- without the characters of `set` at the end -/
def trimEnd (set cs : List Char) : List Char := (trimStart set cs.reverse).reverse

/-- applies a cut to the text and the character set of a call -/
def trimWith (function : String) (cut : List Char → List Char → List Char) : Implementation
  | [text] =>
    if text.isNull then .ok .null
    else do
      let text ← payload function text
      return .string (String.ofList (cut [' '] text.toList))
  | [text, set] =>
    if text.isNull || set.isNull then .ok .null
    else do
      let set ← payload function set
      let text ← payload function text
      return .string (String.ofList (cut set.toList text.toList))
  | args => .error (.arity function (.either 1 2) args.length)

def ltrim : Implementation := trimWith "LTRIM" trimStart

def rtrim : Implementation := trimWith "RTRIM" trimEnd

end Formula.Builtin

namespace Formula

/-- the functions that come with the language -/
def Registry.builtin : Registry :=
  ((((Registry.empty.register "ABS" Builtin.abs).register "CHR" Builtin.chr).register "CONCAT" Builtin.concat).register
    "LTRIM" Builtin.ltrim).register "RTRIM" Builtin.rtrim

end Formula
