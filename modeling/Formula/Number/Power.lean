/-
Powers of two and ten.
-/
namespace Formula

/-- two to the `n` -/
def twoPow (n : Nat) : Nat := Nat.pow 2 n

/-- ten to the `n` -/
def tenPow (n : Nat) : Nat := Nat.pow 10 n

end Formula
