/-
Binary floating-point numbers of 64 bits, held exactly.

Every finite one is a whole multiple of 2^-1074, so a value is a sign and a count of such units. Rounding a ratio keeps 53
significant bits and goes to the nearest value, a half to the even one. A magnitude of 2^1024 or more has no finite value.
-/
import Formula.Number.Power

namespace Formula

/-- `n / d` rounded to the nearest whole number, a half to the even one -/
def roundHalfEven (n d : Nat) : Nat :=
  let q := n / d
  let r := n % d
  if 2 * r < d then q else if d < 2 * r then q + 1 else q + q % 2

/-- a finite number: its sign (also of zero) and its magnitude in units of 2^-1074 -/
structure Binary64 where
  negative : Bool
  units : Nat
deriving DecidableEq, Repr

namespace Binary64

/-- how many units make 1 -/
def one : Nat := twoPow 1074

/-- the magnitude, in units, from which on a value is infinite -/
def bound : Nat := twoPow 2098

/-- how many low bits a magnitude has beyond its 53 significant ones -/
def surplus (units : Nat) : Nat := units.log2 - 52

/-- `n / d` units rounded to 53 significant bits -/
def nearest (n d : Nat) : Nat :=
  let spacing := twoPow (surplus (n / d))
  roundHalfEven n (d * spacing) * spacing

/-- the number with this sign and magnitude, if that is in range -/
def ofUnits? (negative : Bool) (units : Nat) : Option Binary64 :=
  if units < bound then some ⟨negative, units⟩ else none

/-- the number without its sign -/
def abs (x : Binary64) : Binary64 := ⟨false, x.units⟩

/-- the whole part, toward zero -/
def truncate (x : Binary64) : Int :=
  let whole : Int := (x.units / one : Nat)
  if x.negative then -whole else whole

/-- the 64 bits of the interchange format as a number below 2^64 -/
def bits (x : Binary64) : Nat :=
  let s := surplus x.units
  (if x.negative then twoPow 63 else 0) + s * twoPow 52 + x.units / twoPow s

/-- what 64 bits can stand for -/
inductive Datum where
  | finite (value : Binary64)
  | infinite (negative : Bool)
  | nan
deriving DecidableEq, Repr

/-- reads the interchange format: a sign bit, 11 bits of exponent and 52 bits of fraction -/
def Datum.ofBits (bits : Nat) : Datum :=
  let negative := bits / twoPow 63 % 2 == 1
  let exponent := bits / twoPow 52 % twoPow 11
  let fraction := bits % twoPow 52
  if exponent = twoPow 11 - 1 then if fraction = 0 then .infinite negative else .nan
  else if exponent = 0 then .finite ⟨negative, fraction⟩
  else .finite ⟨negative, (twoPow 52 + fraction) * twoPow (exponent - 1)⟩

end Binary64

end Formula
