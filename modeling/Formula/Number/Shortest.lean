/-
The shortest decimal that reads back as a given binary number.

For 1, 2, ... digits the two neighbours of the value on that decimal grid are tried; the first grid with a neighbour that
reads back wins. Of two neighbours the nearer is taken, and an exact half goes to the even one. Seventeen digits always
suffice.
-/
import Formula.Number.Decimal

namespace Formula.Binary64

/-- a power of ten that brings every positive number above 1 -/
def lift : Nat := 330

/-- the least `k` with value below `10 ^ k`, for a magnitude that is not zero -/
def decimalOrder (units : Nat) : Int :=
  ((Nat.toDigits 10 (units * tenPow lift / one)).length : Int) - lift

/-- the magnitude in units of `10 ^ grid`, as numerator and denominator -/
def onGrid (units : Nat) : (grid : Int) → Nat × Nat
  | .ofNat e => (units, one * tenPow e)
  | .negSucc e => (units * tenPow (e + 1), one)

/-- the grid point nearest to the value among its two neighbours that read back, if any does -/
def gridPoint? (units : Nat) (grid : Int) : Option Nat :=
  let (n, d) := onGrid units grid
  let below := n / d
  let nearest := roundHalfEven n d
  let readsBack (digits : Nat) : Bool := Decimal.units digits grid == units
  if readsBack nearest then some nearest
  else [below, below + 1].find? readsBack

/-- digits and exponent of the shortest decimal for a magnitude that is not zero; the digits do not end in 0 -/
def shortest (units : Nat) : Nat × Int :=
  let order := decimalOrder units
  let found := (List.range 17).findSome? fun (i : Nat) =>
    let grid := order - (i + 1)
    (gridPoint? units grid).map fun digits => (digits, grid)
  match found with
  | some (10, grid) => (1, grid + 1)
  | some answer => answer
  | none => (0, 0)

end Formula.Binary64
