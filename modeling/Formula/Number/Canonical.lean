/-
The canonical text of a number: a minus sign if it is negative (zero included), the whole part, a point and exactly six
digits, from the exact value with a half going to the even digit. Numbers in a formula are kept in this form.
-/
import Formula.Number.Decimal

namespace Formula

/-- digits kept after the point -/
def fractionDigits : Nat := 6

/-- the decimal digits of `n`, filled up with zeros in front to `width` -/
def zeroPadded (width n : Nat) : List Char :=
  let digits := Nat.toDigits 10 n
  List.replicate (width - digits.length) '0' ++ digits

/-- `n` counts units of the last kept place -/
def fixedPoint (n : Nat) : List Char :=
  Nat.toDigits 10 (n / tenPow fractionDigits) ++ '.' :: zeroPadded fractionDigits (n % tenPow fractionDigits)

namespace Binary64

/-- the canonical text of a finite number -/
def canonical (x : Binary64) : String :=
  let magnitude := fixedPoint (roundHalfEven (x.units * tenPow fractionDigits) one)
  String.ofList (if x.negative then '-' :: magnitude else magnitude)

/-- the text of whatever 64 bits stand for -/
def Datum.text : Datum → String
  | .finite x => x.canonical
  | .infinite negative => if negative then "-inf" else "inf"
  | .nan => "NaN"

end Binary64

/-- puts number text into canonical form, if it is a finite number -/
def canonicalize (text : String) : Option String :=
  (readNumber? text).map Binary64.canonical

end Formula
