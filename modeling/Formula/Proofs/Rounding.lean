/-
Rounding to whole numbers and to 53 significant bits.

`roundHalfEven n d` is within half of `n / d`, and it is the only whole number strictly closer than that. `nearest n d`
has at most 53 significant bits (`representable_nearest`). From these alone, with no bound on the exponents involved:
a magnitude that is rounded to six decimals and read back rounds to the same six decimals (`roundHalfEven_nearest`).
-/
import Mathlib.Tactic
import Formula.Number.Canonical

namespace Formula

theorem twoPow_eq (n : Nat) : twoPow n = 2 ^ n := rfl

theorem twoPow_pos (n : Nat) : 0 < twoPow n := Nat.two_pow_pos n

/-! ## Whole numbers -/

theorem two_mul_le_roundHalfEven (n : Nat) {d : Nat} (hd : 0 < d) : 2 * n ≤ 2 * (roundHalfEven n d * d) + d := by
  have hn : n / d * d + n % d = n := Nat.div_add_mod' n d
  have hr : n % d < d := Nat.mod_lt n hd
  simp only [roundHalfEven]
  split_ifs with hlow hhigh
  · omega
  · rw [Nat.add_mul]
    omega
  · rw [Nat.add_mul]
    omega

theorem roundHalfEven_two_mul_le (n : Nat) {d : Nat} (hd : 0 < d) : 2 * (roundHalfEven n d * d) ≤ 2 * n + d := by
  have hn : n / d * d + n % d = n := Nat.div_add_mod' n d
  have hr : n % d < d := Nat.mod_lt n hd
  simp only [roundHalfEven]
  split_ifs with hlow hhigh
  · omega
  · rw [Nat.add_mul]
    omega
  · have hparity : n / d % 2 * d ≤ 1 * d := Nat.mul_le_mul_right d (by omega)
    rw [Nat.add_mul]
    omega

/-- a whole number strictly within half of a quotient is what the quotient rounds to -/
theorem roundHalfEven_eq {n d q : Nat} (hlow : 2 * (q * d) < 2 * n + d) (hhigh : 2 * n < 2 * (q * d) + d) :
    roundHalfEven n d = q := by
  have hd : 0 < d := by omega
  have hle := two_mul_le_roundHalfEven n hd
  have hge := roundHalfEven_two_mul_le n hd
  -- the two candidates are less than one apart
  have habove : roundHalfEven n d * d < (q + 1) * d := by
    rw [Nat.add_mul]
    omega
  have hbelow : q * d < (roundHalfEven n d + 1) * d := by
    rw [Nat.add_mul]
    omega
  have := Nat.lt_of_mul_lt_mul_right habove
  have := Nat.lt_of_mul_lt_mul_right hbelow
  omega

theorem roundHalfEven_le {n d k : Nat} (h : n < k * d) : roundHalfEven n d ≤ k := by
  have hq : n / d < k := Nat.div_lt_of_lt_mul (by rwa [Nat.mul_comm] at h)
  simp only [roundHalfEven]
  split_ifs <;> omega

/-! ## Significant bits -/

namespace Binary64

/-- a magnitude of at most 53 significant bits -/
def Representable (u : Nat) : Prop := 2 ^ surplus u ∣ u

theorem lt_two_pow_surplus (u : Nat) : u < 2 ^ (surplus u + 53) := by
  have hlog : u < 2 ^ (u.log2 + 1) := Nat.lt_log2_self
  have hle : 2 ^ (u.log2 + 1) ≤ 2 ^ (surplus u + 53) := Nat.pow_le_pow_right (by decide) (by simp only [surplus]; omega)
  omega

theorem le_surplus {u k : Nat} (h : 2 ^ (k + 52) ≤ u) : k ≤ surplus u := by
  have hu : u ≠ 0 := (lt_of_lt_of_le (Nat.two_pow_pos _) h).ne'
  have := (Nat.le_log2 hu).2 h
  simp only [surplus]
  omega

theorem two_pow_le_of_surplus {u k : Nat} (h : surplus u = k + 1) : 2 ^ (k + 53) ≤ u := by
  have hlog : u.log2 = k + 53 := by
    simp only [surplus] at h
    omega
  have hu : u ≠ 0 := by
    rintro rfl
    simp at hlog
  rw [← hlog]
  exact Nat.log2_self_le hu

theorem surplus_le {u k : Nat} (h : u < 2 ^ (k + 53)) : surplus u ≤ k := by
  by_contra hlt
  obtain ⟨j, hj⟩ := Nat.exists_eq_add_of_lt (not_le.1 hlt)
  have hle : 2 ^ (k + j + 53) ≤ u := two_pow_le_of_surplus hj
  have hpow : 2 ^ (k + 53) ≤ 2 ^ (k + j + 53) := Nat.pow_le_pow_right (by decide) (by omega)
  omega

theorem nearest_eq (n d : Nat) :
    nearest n d = roundHalfEven n (d * 2 ^ surplus (n / d)) * 2 ^ surplus (n / d) := rfl

/-- less than half a unit rounds to zero -/
theorem nearest_of_tiny {n d : Nat} (h : 2 * n < d) : nearest n d = 0 := by
  have hquotient : n / d = 0 := Nat.div_eq_of_lt (by omega)
  have hround : roundHalfEven n (d * 2 ^ surplus 0) = 0 := by
    have hspacing : d * 2 ^ surplus 0 = d := Nat.mul_one d
    rw [hspacing]
    exact roundHalfEven_eq (by omega) (by omega)
  rw [nearest_eq, hquotient, hround, Nat.zero_mul]

theorem significand_le (n : Nat) {d : Nat} (hd : 0 < d) : roundHalfEven n (d * 2 ^ surplus (n / d)) ≤ 2 ^ 53 := by
  apply roundHalfEven_le
  have hquotient : n / d < 2 ^ 53 * 2 ^ surplus (n / d) := by
    rw [← Nat.pow_add, Nat.add_comm]
    exact lt_two_pow_surplus _
  have hn := (Nat.div_lt_iff_lt_mul hd).1 hquotient
  calc n < 2 ^ 53 * 2 ^ surplus (n / d) * d := hn
    _ = 2 ^ 53 * (d * 2 ^ surplus (n / d)) := by ring

theorem nearest_le (n : Nat) {d : Nat} (hd : 0 < d) : nearest n d ≤ 2 ^ (surplus (n / d) + 53) := by
  rw [nearest_eq, Nat.pow_add, Nat.mul_comm (2 ^ _)]
  exact Nat.mul_le_mul_right _ (significand_le n hd)

theorem representable_mul_two_pow {m k : Nat} (hm : m ≤ 2 ^ 53) : Representable (m * 2 ^ k) := by
  have hbound : m * 2 ^ k ≤ 2 ^ (k + 53) := by
    rw [Nat.pow_add, Nat.mul_comm (2 ^ k)]
    exact Nat.mul_le_mul_right _ hm
  rcases Nat.lt_or_ge k (surplus (m * 2 ^ k)) with hk | hk
  · -- only a significand that carries over to the next power of two has a larger surplus
    obtain ⟨j, hj⟩ := Nat.exists_eq_add_of_lt hk
    have hle : 2 ^ (k + j + 53) ≤ m * 2 ^ k := two_pow_le_of_surplus hj
    have hj0 : j = 0 := by
      have := (Nat.pow_le_pow_iff_right (by decide)).1 (hle.trans hbound)
      omega
    subst hj0
    rw [Representable, hj, le_antisymm hbound hle]
    exact Nat.pow_dvd_pow 2 (by omega)
  · exact (Nat.pow_dvd_pow 2 hk).mul_left m

/-- **Rounded magnitudes have at most 53 significant bits** -/
theorem representable_nearest (n : Nat) {d : Nat} (hd : 0 < d) : Representable (nearest n d) := by
  rw [nearest_eq]
  exact representable_mul_two_pow (significand_le n hd)

/-! ## Reading back -/

/-- rounding to 53 bits moves a quotient by at most half a spacing -/
theorem nearest_within (n : Nat) {d : Nat} (hd : 0 < d) :
    2 * n ≤ 2 * (nearest n d * d) + d * 2 ^ surplus (n / d) ∧ 2 * (nearest n d * d) ≤ 2 * n + d * 2 ^ surplus (n / d) := by
  have hspacing : 0 < d * 2 ^ surplus (n / d) := Nat.mul_pos hd (Nat.two_pow_pos _)
  have hregroup : nearest n d * d = roundHalfEven n (d * 2 ^ surplus (n / d)) * (d * 2 ^ surplus (n / d)) := by
    rw [nearest_eq]
    ring
  rw [hregroup]
  exact ⟨two_mul_le_roundHalfEven n hspacing, roundHalfEven_two_mul_le n hspacing⟩

/-- a representable magnitude strictly within half a spacing of a quotient is what the quotient rounds to -/
theorem nearest_eq_of_dvd {n d u : Nat} (hdvd : 2 ^ surplus (n / d) ∣ u)
    (hlow : 2 * (u * d) < 2 * n + d * 2 ^ surplus (n / d)) (hhigh : 2 * n < 2 * (u * d) + d * 2 ^ surplus (n / d)) :
    nearest n d = u := by
  obtain ⟨m, rfl⟩ := hdvd
  have hregroup : 2 ^ surplus (n / d) * m * d = m * (d * 2 ^ surplus (n / d)) := by ring
  rw [hregroup] at hlow hhigh
  rw [nearest_eq, roundHalfEven_eq hlow hhigh, Nat.mul_comm]

/-- a representable magnitude just below a power of two reaches it -/
theorem Representable.two_pow_le {u j : Nat} (hu : Representable u) (h : 2 ^ (j + 53) < u + 2 ^ j) : 2 ^ (j + 53) ≤ u := by
  have hpow : 2 ^ (j + 53) = 2 * 2 ^ (j + 52) := by ring
  have hj : 2 ^ j ≤ 2 ^ (j + 52) := Nat.pow_le_pow_right (by decide) (by omega)
  have hdvd : 2 ^ j ∣ u := (Nat.pow_dvd_pow 2 (le_surplus (by omega))).trans hu
  obtain ⟨m, rfl⟩ := hdvd
  have hm : 2 ^ 53 < m + 1 := by
    apply Nat.lt_of_mul_lt_mul_left (a := 2 ^ j)
    rw [← Nat.pow_add, Nat.mul_add, Nat.mul_one]
    exact h
  rw [Nat.pow_add]
  exact Nat.mul_le_mul_left _ (by omega)

/-- Where the spacing at `n / d` is coarser than the six decimals, `n / d` rounds to the magnitude that it was written
from. -/
theorem nearest_eq_of_coarse {e u N k : Nat} (hu : Representable u) (hk : surplus (N * 2 ^ e / 10 ^ 6) = k + 1)
    (hcoarse : e ≤ k + 20) (hlow : 2 * (N * 2 ^ e) ≤ 2 * (u * 10 ^ 6) + 2 ^ e)
    (hhigh : 2 * (u * 10 ^ 6) ≤ 2 * (N * 2 ^ e) + 2 ^ e) : nearest (N * 2 ^ e) (10 ^ 6) = u := by
  have hone : 2 ^ e ≤ 2 ^ k * 2 ^ 20 := by
    rw [← Nat.pow_add]
    exact Nat.pow_le_pow_right (by decide) hcoarse
  have hquotient : 2 ^ (k + 53) * 10 ^ 6 ≤ N * 2 ^ e :=
    (Nat.le_div_iff_mul_le (by norm_num)).1 (two_pow_le_of_surplus hk)
  have hpos : 0 < 2 ^ k := Nat.two_pow_pos k
  have hreach : 2 ^ (k + 53) ≤ u := hu.two_pow_le (by omega)
  have hdvd : 2 ^ (k + 1) ∣ u := (Nat.pow_dvd_pow 2 (le_surplus hreach)).trans hu
  have hspacing : 10 ^ 6 * 2 ^ (k + 1) = 2 * (10 ^ 6 * 2 ^ k) := by ring
  apply nearest_eq_of_dvd
  · rwa [hk]
  · rw [hk, hspacing]
    omega
  · rw [hk, hspacing]
    omega

/-- **Six decimals read back to the same six decimals.** `N` counts millionths of a representable magnitude `u`, where
`2 ^ e` units make 1. What `N` is read as either is `u` or stays small. -/
theorem roundHalfEven_nearest {e u : Nat} (he : 20 ≤ e) (hu : Representable u) :
    let N := roundHalfEven (u * 10 ^ 6) (2 ^ e)
    roundHalfEven (nearest (N * 2 ^ e) (10 ^ 6) * 10 ^ 6) (2 ^ e) = N ∧
      (nearest (N * 2 ^ e) (10 ^ 6) = u ∨ nearest (N * 2 ^ e) (10 ^ 6) ≤ 2 ^ (e + 33)) := by
  intro N
  have hlow := roundHalfEven_two_mul_le (u * 10 ^ 6) (Nat.two_pow_pos e)
  have hhigh := two_mul_le_roundHalfEven (u * 10 ^ 6) (Nat.two_pow_pos e)
  rcases Nat.lt_or_ge (surplus (N * 2 ^ e / 10 ^ 6) + 19) e with hfine | hcoarse
  · -- the spacing is finer than a millionth, so that reading moves `N` by less than half
    have hspacing : 10 ^ 6 * 2 ^ surplus (N * 2 ^ e / 10 ^ 6) < 2 ^ e := by
      have hle : 2 ^ (surplus (N * 2 ^ e / 10 ^ 6) + 20) ≤ 2 ^ e := Nat.pow_le_pow_right (by decide) (by omega)
      have hpos : 0 < 2 ^ surplus (N * 2 ^ e / 10 ^ 6) := Nat.two_pow_pos _
      rw [Nat.pow_add] at hle
      omega
    obtain ⟨hbelow, habove⟩ := nearest_within (N * 2 ^ e) (by norm_num : 0 < 10 ^ 6)
    refine ⟨roundHalfEven_eq (by omega) (by omega), .inr ?_⟩
    refine (nearest_le _ (by norm_num)).trans (Nat.pow_le_pow_right (by decide) (by omega))
  · obtain ⟨k, hk⟩ : ∃ k, surplus (N * 2 ^ e / 10 ^ 6) = k + 1 := ⟨surplus (N * 2 ^ e / 10 ^ 6) - 1, by omega⟩
    have hread : nearest (N * 2 ^ e) (10 ^ 6) = u := nearest_eq_of_coarse hu hk (by omega) hlow hhigh
    exact ⟨by rw [hread], .inl hread⟩

end Binary64

end Formula
