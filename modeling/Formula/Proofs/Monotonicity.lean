/-
Rounding keeps order.

Of two quotients the larger never rounds to less: not to whole numbers (`roundHalfEven_mono`), where a tie can only be
between equal quotients, and not to 53 significant bits (`nearest_mono`), where a coarser spacing starts at a power of two
that the finer one still reaches. Number text is read by the second and written by the first.

`canonicalize_mono`: number texts in canonical form show numbers in the same order as before, whatever their lengths,
exponents and signs are.
-/
import Mathlib.Tactic
import Formula.Proofs.Numerals

namespace Formula

/-! ## Whole numbers -/

/-- rounding depends on the quotient only -/
theorem roundHalfEven_scale (n d : Nat) {c : Nat} (hc : 0 < c) : roundHalfEven (n * c) (d * c) = roundHalfEven n d := by
  have hlow : 2 * (n % d * c) < d * c ↔ 2 * (n % d) < d := by
    rw [← Nat.mul_assoc]
    exact Nat.mul_lt_mul_right hc
  have hhigh : d * c < 2 * (n % d * c) ↔ d < 2 * (n % d) := by
    rw [← Nat.mul_assoc]
    exact Nat.mul_lt_mul_right hc
  simp only [roundHalfEven, Nat.mul_div_mul_right n d hc, Nat.mul_mod_mul_right, hlow, hhigh]

/-- equal quotients round alike -/
theorem roundHalfEven_congr {n d n' d' : Nat} (hd : 0 < d) (hd' : 0 < d') (h : n * d' = n' * d) :
    roundHalfEven n d = roundHalfEven n' d' := by
  rw [← roundHalfEven_scale n d hd', ← roundHalfEven_scale n' d' hd, h, Nat.mul_comm d d']

/-- **A larger quotient does not round to less** -/
theorem roundHalfEven_mono {n d n' d' : Nat} (hd : 0 < d) (hd' : 0 < d') (h : n * d' ≤ n' * d) :
    roundHalfEven n d ≤ roundHalfEven n' d' := by
  by_contra hlt
  -- the quotients lie on the wrong sides of the middle between what they round to, so they are equal
  have hstep : (roundHalfEven n' d' + 1) * d ≤ roundHalfEven n d * d := Nat.mul_le_mul_right d (by omega)
  have hlow := roundHalfEven_two_mul_le n hd
  have hhigh := two_mul_le_roundHalfEven n' hd'
  have habove : (2 * roundHalfEven n' d' + 1) * d ≤ 2 * n := by linarith
  have hmiddle : (2 * roundHalfEven n' d' + 1) * d * d' ≤ 2 * n * d' := Nat.mul_le_mul_right d' habove
  have hmiddle' : 2 * n' * d ≤ (2 * (roundHalfEven n' d' * d') + d') * d := Nat.mul_le_mul_right d hhigh
  have hequal : n * d' = n' * d := by linarith
  exact hlt (roundHalfEven_congr hd hd' hequal).le

theorem le_roundHalfEven {n d k : Nat} (hd : 0 < d) (h : k * d ≤ n) : k ≤ roundHalfEven n d := by
  have hk : k ≤ n / d := (Nat.le_div_iff_mul_le hd).2 h
  simp only [roundHalfEven]
  split_ifs <;> omega

/-! ## Significant bits -/

namespace Binary64

theorem surplus_mono {u v : Nat} (h : u ≤ v) : surplus u ≤ surplus v := by
  cases hu : surplus u with
  | zero => exact Nat.zero_le _
  | succ k => exact le_surplus ((two_pow_le_of_surplus hu).trans h)

/-- what has a surplus of bits rounds to the power of two below it, or to more -/
theorem two_pow_le_nearest {n d k : Nat} (hd : 0 < d) (hk : surplus (n / d) = k + 1) : 2 ^ (k + 53) ≤ nearest n d := by
  have hquotient : 2 ^ (k + 53) ≤ n / d := two_pow_le_of_surplus hk
  have hn : 2 ^ (k + 53) * d ≤ n := (Nat.le_div_iff_mul_le hd).1 hquotient
  have hsplit : 2 ^ (k + 53) = 2 ^ 52 * 2 ^ (k + 1) := by
    rw [← Nat.pow_add]
    congr 1
    omega
  have hround : 2 ^ 52 ≤ roundHalfEven n (d * 2 ^ (k + 1)) := by
    apply le_roundHalfEven (Nat.mul_pos hd (Nat.two_pow_pos _))
    calc 2 ^ 52 * (d * 2 ^ (k + 1)) = 2 ^ (k + 53) * d := by rw [hsplit]; ring
      _ ≤ n := hn
  rw [nearest_eq, hk, hsplit]
  exact Nat.mul_le_mul_right _ hround

/-- **A larger quotient is not read as less** -/
theorem nearest_mono {n d n' d' : Nat} (hd : 0 < d) (hd' : 0 < d') (h : n * d' ≤ n' * d) :
    nearest n d ≤ nearest n' d' := by
  have hquotient : n / d ≤ n' / d' := by
    rw [Nat.le_div_iff_mul_le hd']
    apply Nat.le_of_mul_le_mul_right _ hd
    calc n / d * d' * d = n / d * d * d' := by ring
      _ ≤ n * d' := Nat.mul_le_mul_right d' (Nat.div_mul_le_self n d)
      _ ≤ n' * d := h
  rcases Nat.eq_or_lt_of_le (surplus_mono hquotient) with hsame | hcoarser
  · rw [nearest_eq, nearest_eq, ← hsame]
    apply Nat.mul_le_mul_right
    apply roundHalfEven_mono (Nat.mul_pos hd (Nat.two_pow_pos _)) (Nat.mul_pos hd' (Nat.two_pow_pos _))
    calc n * (d' * 2 ^ surplus (n / d)) = n * d' * 2 ^ surplus (n / d) := by ring
      _ ≤ n' * d * 2 ^ surplus (n / d) := Nat.mul_le_mul_right _ h
      _ = n' * (d * 2 ^ surplus (n / d)) := by ring
  · -- the finer spacing ends where the coarser one starts
    obtain ⟨k, hk⟩ := Nat.exists_eq_add_of_lt hcoarser
    calc nearest n d ≤ 2 ^ (surplus (n / d) + 53) := nearest_le n hd
      _ ≤ 2 ^ (surplus (n / d) + k + 53) := Nat.pow_le_pow_right (by decide) (by omega)
      _ ≤ nearest n' d' := two_pow_le_nearest hd' hk

end Binary64

/-! ## Decimals -/

namespace Decimal

/-- a decimal is read as the quotient that it is, or its exponent alone puts it out of range -/
theorem exists_nearest_or_huge (digits : Nat) (exponent : Int) :
    (∃ n d, 0 < d ∧ units digits exponent = Binary64.nearest n d ∧ (n : ℚ) = digits * 10 ^ exponent * Binary64.one * d) ∨
      units digits exponent = Binary64.bound ∧ (10 : ℚ) ^ hugeExponent ≤ digits * 10 ^ exponent := by
  cases exponent with
  | ofNat e =>
    have hexpand : ((digits * 10 ^ e * Binary64.one : ℕ) : ℚ) = digits * 10 ^ (Int.ofNat e) * Binary64.one * (1 : ℕ) := by
      generalize Binary64.one = unit
      simp
    rw [units]
    split_ifs with hzero hhuge
    · refine .inl ⟨digits * 10 ^ e * Binary64.one, 1, Nat.one_pos, ?_, hexpand⟩
      rw [hzero, Nat.zero_mul, Nat.zero_mul, Binary64.nearest_of_tiny (by decide)]
    · right
      have hone : (1 : ℚ) ≤ digits := Nat.one_le_cast.2 (Nat.pos_of_ne_zero hzero)
      have hpow : (10 : ℚ) ^ hugeExponent ≤ 10 ^ e := pow_le_pow_right₀ (by norm_num) hhuge
      have hnonneg : (0 : ℚ) ≤ 10 ^ e := by positivity
      refine ⟨rfl, ?_⟩
      calc (10 : ℚ) ^ hugeExponent ≤ 1 * 10 ^ e := by rwa [one_mul]
        _ ≤ digits * 10 ^ e := mul_le_mul_of_nonneg_right hone hnonneg
    · exact .inl ⟨digits * 10 ^ e * Binary64.one, 1, Nat.one_pos, rfl, hexpand⟩
  | negSucc e =>
    refine .inl ⟨digits * Binary64.one, 10 ^ (e + 1), Nat.pow_pos (by decide), units_neg digits (e + 1), ?_⟩
    have hten : (10 : ℚ) ^ (e + 1) ≠ 0 := pow_ne_zero _ (by norm_num)
    generalize Binary64.one = unit
    rw [zpow_negSucc]
    push_cast
    field_simp

/-- a decimal in range is read as the quotient that it is -/
theorem exists_nearest {digits : Nat} {exponent : Int} (h : units digits exponent < Binary64.bound) :
    ∃ n d, 0 < d ∧ units digits exponent = Binary64.nearest n d ∧
      (n : ℚ) = digits * 10 ^ exponent * Binary64.one * d := by
  rcases exists_nearest_or_huge digits exponent with hnearest | ⟨hbound, -⟩
  · exact hnearest
  · exact absurd h hbound.not_lt

/-- the larger of two decimals in range is not read as less -/
theorem units_mono {a b : Decimal} (ha : units a.digits a.exponent < Binary64.bound)
    (hb : units b.digits b.exponent < Binary64.bound) (h : a.magnitude ≤ b.magnitude) :
    units a.digits a.exponent ≤ units b.digits b.exponent := by
  obtain ⟨n, d, hd, hunits, hn⟩ := exists_nearest ha
  obtain ⟨n', d', hd', hunits', hn'⟩ := exists_nearest hb
  rw [hunits, hunits']
  apply Binary64.nearest_mono hd hd'
  generalize Binary64.one = unit at hn hn'
  have hscale : (0 : ℚ) ≤ unit * d * d' := by exact_mod_cast Nat.zero_le (unit * d * d')
  have hcross : (n : ℚ) * d' ≤ n' * d := by
    calc (n : ℚ) * d' = a.magnitude * (unit * d * d') := by rw [hn, magnitude]; ring
      _ ≤ b.magnitude * (unit * d * d') := mul_le_mul_of_nonneg_right h hscale
      _ = n' * d := by rw [hn', magnitude]; ring
  exact_mod_cast hcross

theorem units_zero (exponent : Int) : units 0 exponent = 0 := by
  cases exponent with
  | ofNat e => rfl
  | negSucc e =>
    have hunits := units_neg 0 (e + 1)
    rw [Nat.zero_mul, Binary64.nearest_of_tiny (by positivity)] at hunits
    exact hunits

/-- the magnitude that a decimal is written with: six digits of the number that it is read as -/
def written (d : Decimal) : ℚ := roundHalfEven (units d.digits d.exponent * 10 ^ 6) Binary64.one / 10 ^ 6

theorem magnitude_nonneg (d : Decimal) : 0 ≤ d.magnitude := by
  rw [magnitude]
  positivity

theorem written_nonneg (d : Decimal) : 0 ≤ d.written := div_nonneg (Nat.cast_nonneg _) (by norm_num)

theorem written_mono {a b : Decimal} (ha : units a.digits a.exponent < Binary64.bound)
    (hb : units b.digits b.exponent < Binary64.bound) (h : a.magnitude ≤ b.magnitude) : a.written ≤ b.written := by
  have hone : 0 < Binary64.one := twoPow_pos 1074
  have hround : roundHalfEven (units a.digits a.exponent * 10 ^ 6) Binary64.one ≤
      roundHalfEven (units b.digits b.exponent * 10 ^ 6) Binary64.one := by
    apply roundHalfEven_mono hone hone
    exact Nat.mul_le_mul_right _ (Nat.mul_le_mul_right _ (units_mono ha hb h))
  exact div_le_div_of_nonneg_right (Nat.cast_le.2 hround) (by norm_num)

theorem written_eq_zero {d : Decimal} (h : d.magnitude = 0) : d.written = 0 := by
  have hdigits : d.digits = 0 := Nat.cast_eq_zero.1 ((mul_eq_zero.1 h).resolve_right (zpow_ne_zero _ (by norm_num)))
  have hone : 0 < Binary64.one := twoPow_pos 1074
  have hround : roundHalfEven 0 Binary64.one = 0 := roundHalfEven_eq (by omega) (by omega)
  rw [written, hdigits, units_zero, Nat.zero_mul, hround, Nat.cast_zero, zero_div]

/-- decimals in range are written as numbers in the same order -/
theorem signed_written_mono {a b : Decimal} (ha : units a.digits a.exponent < Binary64.bound)
    (hb : units b.digits b.exponent < Binary64.bound) (h : a.value ≤ b.value) :
    signed a.negative a.written ≤ signed b.negative b.written := by
  have hneg : ∀ d : Decimal, signed true d.written = -d.written := fun _ => rfl
  rw [value, value] at h
  cases hna : a.negative with
  | false =>
    cases hnb : b.negative with
    | false =>
      rw [hna, hnb] at h
      exact written_mono ha hb h
    | true =>
      -- only zero is at most a negative value
      have hle : a.magnitude ≤ -b.magnitude := by rwa [hna, hnb] at h
      have hzero := written_eq_zero (by linarith [a.magnitude_nonneg, b.magnitude_nonneg] : a.magnitude = 0)
      have hzero' := written_eq_zero (by linarith [a.magnitude_nonneg, b.magnitude_nonneg] : b.magnitude = 0)
      rw [hneg, hzero']
      exact le_of_eq (hzero.trans neg_zero.symm)
  | true =>
    cases hnb : b.negative with
    | false =>
      calc signed true a.written = -a.written := rfl
        _ ≤ 0 := neg_nonpos.2 a.written_nonneg
        _ ≤ b.written := b.written_nonneg
    | true =>
      have hle : -a.magnitude ≤ -b.magnitude := by rwa [hna, hnb] at h
      exact neg_le_neg (written_mono hb ha (neg_le_neg_iff.1 hle))

end Decimal

/-! ## Number text -/

/-- **Canonical form keeps the order of numbers.** Number text and its canonical form show one exact number each, and of two
texts the one with the larger number has the larger number in canonical form, or the same. -/
theorem canonicalize_mono {a b a' b' : String} (ha : canonicalize a = some a') (hb : canonicalize b = some b') :
    (∃! x, Denotes a x) ∧ (∃! x', Denotes a' x') ∧
      ∀ x y x' y', Denotes a x → Denotes b y → Denotes a' x' → Denotes b' y' → x ≤ y → x' ≤ y' := by
  obtain ⟨d, hd, hbound, rfl⟩ := canonicalize_eq_some_iff.1 ha
  obtain ⟨e, he, hbound', rfl⟩ := canonicalize_eq_some_iff.1 hb
  have hx : Denotes a d.value := denotes_iff.2 ⟨d, hd, rfl⟩
  have hy : Denotes b e.value := denotes_iff.2 ⟨e, he, rfl⟩
  have hx' := denotes_canonical ⟨d.negative, Decimal.units d.digits d.exponent⟩
  have hy' := denotes_canonical ⟨e.negative, Decimal.units e.digits e.exponent⟩
  refine ⟨⟨_, hx, fun _ h => denotes_unique h hx⟩, ⟨_, hx', fun _ h => denotes_unique h hx'⟩, ?_⟩
  intro x y x' y' hax hby hax' hby' hle
  rw [denotes_unique hax hx, denotes_unique hby hy] at hle
  rw [denotes_unique hax' hx', denotes_unique hby' hy']
  exact Decimal.signed_written_mono hbound hbound' hle

/-- half way between two neighbours, and a little more -/
theorem canonicalize_mono_tie :
    canonicalize "9007199254740993" = some "9007199254740992.000000" ∧
      canonicalize "+90071992547409930000001E-7" = some "9007199254740994.000000" ∧
      (∃! x, Denotes "9007199254740993" x) ∧ (∃! x, Denotes "9007199254740992.000000" x) ∧
      ∀ x y x' y', Denotes "9007199254740993" x → Denotes "+90071992547409930000001E-7" y →
        Denotes "9007199254740992.000000" x' → Denotes "9007199254740994.000000" y' → x ≤ y → x' ≤ y' := by
  have hlow : canonicalize "9007199254740993" = some "9007199254740992.000000" := by decide +kernel
  have hhigh : canonicalize "+90071992547409930000001E-7" = some "9007199254740994.000000" := by decide +kernel
  exact ⟨hlow, hhigh, canonicalize_mono hlow hhigh⟩

end Formula
