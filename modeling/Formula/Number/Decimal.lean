/-
Decimal number text and the binary number it denotes.

The grammar: an optional sign, digits with an optional point and at least one digit on either side of it, and an optional
exponent with an optional sign and at least one digit. `toBinary64?` rounds the exact decimal value once, however long the
text is, and refuses a value that rounds to infinity.
-/
import Formula.Number.Binary64

namespace Formula

/-- the value `digits * 10 ^ exponent` with a sign -/
structure Decimal where
  negative : Bool
  digits : Nat
  exponent : Int
deriving DecidableEq, Repr

namespace Decimal

/-! ## Reading -/

/-- splits an optional sign from the front; `true` for a minus -/
def splitSign : List Char → Bool × List Char
  | '-' :: rest => (true, rest)
  | '+' :: rest => (false, rest)
  | cs => (false, cs)

/-- splits a point and the digits after it from the front -/
def splitFraction : List Char → List Char × List Char
  | '.' :: rest => (rest.takeWhile Char.isDigit, rest.dropWhile Char.isDigit)
  | cs => ([], cs)

/-- the value of a run of digits -/
def digitsValue (cs : List Char) : Nat := Nat.ofDigitChars 10 cs 0

/-- the exponent that a number may end with: nothing, or a mark, an optional sign and digits -/
def exponent? : List Char → Option Int
  | [] => some 0
  | mark :: rest =>
    let (negative, digits) := splitSign rest
    if (mark = 'e' ∨ mark = 'E') ∧ digits ≠ [] ∧ digits.all Char.isDigit then
      some (if negative then -(digitsValue digits : Int) else digitsValue digits)
    else none

/-- reads a whole text as a decimal number -/
def ofChars? (cs : List Char) : Option Decimal :=
  let (negative, body) := splitSign cs
  let whole := body.takeWhile Char.isDigit
  let (fraction, tail) := splitFraction (body.dropWhile Char.isDigit)
  if whole = [] ∧ fraction = [] then none
  else (exponent? tail).map fun e => ⟨negative, digitsValue (whole ++ fraction), e - fraction.length⟩

/-! ## Rounding -/

/-- powers of ten from this exponent on exceed every finite number -/
def hugeExponent : Nat := 310

/-- the magnitude of `digits * 10 ^ exponent` in units, rounded. Exponents that decide the answer by themselves are not
expanded: ten to the `hugeExponent` is out of range, and a quotient of at most half a unit rounds to zero. -/
def units (digits : Nat) : Int → Nat
  | .ofNat e =>
    if digits = 0 then 0
    else if hugeExponent ≤ e then Binary64.bound
    else Binary64.nearest (digits * tenPow e * Binary64.one) 1
  | .negSucc e =>
    if digits.log2 + 1076 ≤ 3 * (e + 1) then 0
    else Binary64.nearest (digits * Binary64.one) (tenPow (e + 1))

/-- the nearest binary number, if it is finite -/
def toBinary64? (d : Decimal) : Option Binary64 :=
  Binary64.ofUnits? d.negative (units d.digits d.exponent)

end Decimal

/-- reads number text as a finite binary number -/
def readNumber? (text : String) : Option Binary64 :=
  (Decimal.ofChars? text.toList).bind Decimal.toBinary64?

end Formula
