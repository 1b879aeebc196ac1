/-
Numbers in JSON text.

A literal without fraction and exponent that fits in 64 bits, with or without a sign, is a whole number. Any other literal
is a binary number: as many leading digits as fit in 64 bits are taken as a whole number, which is then multiplied or
divided by the power of ten that is left, each step rounding to the nearest binary number. A power beyond 10^308 is out of
range upward and is divided out in steps of 10^308 downward.

A binary number is written with the fewest digits that read back: positionally, with at least one digit after the point,
from 10^-5 up to below 10^16, and with a signed exponent elsewhere.
-/
import Formula.Number.Shortest

namespace Formula

/-- the value of a JSON number -/
inductive JsonNumber where
  | integer (n : Int)
  | binary (x : Binary64)
deriving DecidableEq, Repr

namespace JsonNumber

/-! ## Reading -/

/-- the parts of a number literal: digits before the point, digits after it, and the exponent; the flags tell a minus
sign and whether a point or an exponent is present -/
structure Literal where
  negative : Bool
  whole : List Char
  fraction : List Char
  exponent : Int
  isInteger : Bool

/-- the digits before the point: a single zero, or a run that starts with another digit -/
def splitWhole : List Char → List Char × List Char
  | '0' :: rest => (['0'], rest)
  | cs => (cs.takeWhile Char.isDigit, cs.dropWhile Char.isDigit)

/-- the digits after a point, `none` if a point has no digit after it -/
def splitFraction? : List Char → Option (List Char × List Char)
  | '.' :: rest =>
    match rest.takeWhile Char.isDigit with
    | [] => none
    | digits => some (digits, rest.dropWhile Char.isDigit)
  | cs => some ([], cs)

/-- the exponent, if one is written, and the rest; `none` if its mark has no digits after it -/
def splitExponent? : List Char → Option (Option Int × List Char)
  | [] => some (none, [])
  | mark :: rest =>
    if mark = 'e' ∨ mark = 'E' then
      let (negative, body) := Decimal.splitSign rest
      match body.takeWhile Char.isDigit with
      | [] => none
      | digits =>
        let value : Int := Decimal.digitsValue digits
        some (some (if negative then -value else value), body.dropWhile Char.isDigit)
    else some (none, mark :: rest)

/-- splits a number literal from the front of a text -/
def splitLiteral? (cs : List Char) : Option (Literal × List Char) := do
  let (negative, body) := match cs with
    | '-' :: rest => (true, rest)
    | cs => (false, cs)
  let (whole, body) := splitWhole body
  if whole = [] then none
  else
    let (fraction, body) ← splitFraction? body
    let (exponent?, rest) ← splitExponent? body
    return (⟨negative, whole, fraction, exponent?.getD 0, fraction = [] ∧ exponent? = none⟩, rest)

/-- continues a whole number with digits as long as it fits in 64 bits; also tells how many digits were left out -/
def takeDigits (value : Nat) : List Char → Nat × Nat
  | [] => (value, 0)
  | c :: rest =>
    let next := 10 * value + (c.toNat - '0'.toNat)
    if next < twoPow 64 then takeDigits next rest else (value, rest.length + 1)

/-- the largest power of ten with a binary number near it -/
def maxPower : Nat := 308

/-- the magnitude of a power of ten, rounded -/
def tenPower (e : Nat) : Nat := Binary64.nearest (tenPow e * Binary64.one) 1

/-- a magnitude divided by `10 ^ e`, rounding at each step -/
def shrink (units e : Nat) : Nat :=
  if e ≤ maxPower then Binary64.nearest (units * Binary64.one) (tenPower e)
  else if units = 0 then 0
  else shrink (Binary64.nearest (units * Binary64.one) (tenPower maxPower)) (e - maxPower)
termination_by e
decreasing_by
  simp only [maxPower] at *
  omega

/-- a magnitude times `10 ^ exponent`, `none` if that is out of range -/
def scale? (units : Nat) : (exponent : Int) → Option Nat
  | .ofNat e =>
    if units = 0 then some 0
    else if e ≤ maxPower then
      let product := Binary64.nearest (units * tenPower e) Binary64.one
      if product < Binary64.bound then some product else none
    else none
  | .negSucc e => some (shrink units (e + 1))

/-- the binary number of a literal -/
def Literal.toBinary64? (l : Literal) : Option Binary64 :=
  let (head, unreadWhole) := takeDigits 0 l.whole
  let (significand, unreadFraction) := takeDigits head l.fraction
  let exponent := l.exponent + unreadWhole - (l.fraction.length - unreadFraction : Nat)
  (scale? (Binary64.nearest (significand * Binary64.one) 1) exponent).map fun units => ⟨l.negative, units⟩

/-- the value of a literal -/
def Literal.value? (l : Literal) : Option JsonNumber :=
  let n := Decimal.digitsValue l.whole
  if l.isInteger ∧ ¬ l.negative ∧ n < twoPow 64 then some (.integer n)
  else if l.isInteger ∧ l.negative ∧ 0 < n ∧ n ≤ twoPow 63 then some (.integer (-n))
  else l.toBinary64?.map .binary

/-! ## Writing -/

def zeros (n : Nat) : List Char := List.replicate n '0'

/-- `digits` with the point after the first `place` of them, filled up with zeros so that both sides have a digit -/
def positional (digits : List Char) (place : Int) : List Char :=
  match place with
  | .ofNat n =>
    if n = 0 then '0' :: '.' :: digits
    else if n < digits.length then digits.take n ++ '.' :: digits.drop n
    else digits ++ zeros (n - digits.length) ++ ['.', '0']
  | .negSucc n => '0' :: '.' :: (zeros (n + 1) ++ digits)

/-- `digits` with the point after the first of them and an exponent -/
def scientific (digits : List Char) (exponent : Int) : List Char :=
  let mantissa := match digits with
    | first :: [] => [first]
    | first :: rest => first :: '.' :: rest
    | [] => []
  let sign := if exponent < 0 then '-' else '+'
  mantissa ++ 'e' :: sign :: Nat.toDigits 10 exponent.natAbs

/-- the text of a magnitude -/
def magnitudeText (units : Nat) : List Char :=
  if units = 0 then ['0', '.', '0']
  else
    let (value, exponent) := Binary64.shortest units
    let digits := Nat.toDigits 10 value
    let place := exponent + digits.length
    if -5 < place ∧ place ≤ 16 then positional digits place else scientific digits (place - 1)

/-- a number as JSON text -/
def text : JsonNumber → String
  | .integer n => toString n
  | .binary x =>
    let magnitude := magnitudeText x.units
    String.ofList (if x.negative then '-' :: magnitude else magnitude)

end JsonNumber

end Formula
