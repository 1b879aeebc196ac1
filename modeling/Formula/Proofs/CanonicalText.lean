/-
Canonical number text.

Text in canonical form is a point between digits, perhaps after a minus sign, and reads as the decimal that it shows
(`ofChars?_signed_fixedPoint`). What is read from it rounds back to the same six decimals, so canonical form is a fixed
point: `canonicalize_canonicalize`.
-/
import Mathlib.Tactic
import Mathlib.Data.List.TakeWhile
import Formula.Proofs.Rounding

namespace Formula

/-! ## Digits -/

theorem ne_of_isDigit {c d : Char} (hc : c.isDigit = true) (hd : d.isDigit = false) : c ≠ d := by
  rintro rfl
  rw [hc] at hd
  cases hd

theorem isDigit_of_mem_zeroPadded {width n : Nat} {c : Char} (h : c ∈ zeroPadded width n) : c.isDigit = true := by
  rcases List.mem_append.1 h with hzero | hdigit
  · rw [List.eq_of_mem_replicate hzero]
    rfl
  · exact Nat.isDigit_of_mem_toDigits (by decide) (by decide) hdigit

theorem length_zeroPadded {width n : Nat} (hwidth : 0 < width) (h : n < 10 ^ width) :
    (zeroPadded width n).length = width := by
  have hle := Nat.toDigits_length 10 n width hwidth h
  simp only [zeroPadded, List.length_append, List.length_replicate]
  omega

namespace Decimal

theorem digitsValue_toDigits (n : Nat) : digitsValue (Nat.toDigits 10 n) = n := Nat.ofDigitChars_ten_toDigits

theorem digitsValue_append (xs ys : List Char) :
    digitsValue (xs ++ ys) = 10 ^ ys.length * digitsValue xs + digitsValue ys := by
  rw [digitsValue, Nat.ofDigitChars_append, Nat.ofDigitChars_eq_ofDigitChars_zero]
  rfl

theorem digitsValue_zeros (k : Nat) : digitsValue (List.replicate k '0') = 0 := by
  rw [digitsValue, Nat.ofDigitChars_replicate_zero, Nat.mul_zero]

theorem digitsValue_zeroPadded (width n : Nat) : digitsValue (zeroPadded width n) = n := by
  rw [zeroPadded, digitsValue_append, digitsValue_zeros, digitsValue_toDigits, Nat.mul_zero, Nat.zero_add]

end Decimal

/-! ## Fixed points -/

theorem fixedPoint_eq (n : Nat) :
    fixedPoint n = Nat.toDigits 10 (n / 10 ^ 6) ++ '.' :: zeroPadded 6 (n % 10 ^ 6) := by
  have hmillion : tenPow fractionDigits = 10 ^ 6 := rfl
  rw [fixedPoint, hmillion, fractionDigits]

/-- digits, a point and six digits -/
structure FixedPoint (cs whole fraction : List Char) : Prop where
  eq : cs = whole ++ '.' :: fraction
  whole_ne : whole ≠ []
  digits_whole : ∀ c ∈ whole, c.isDigit = true
  length_fraction : fraction.length = 6
  digits_fraction : ∀ c ∈ fraction, c.isDigit = true

theorem FixedPoint.exists_digit {cs whole fraction : List Char} (h : FixedPoint cs whole fraction) :
    ∃ c ds, cs = c :: ds ∧ c.isDigit = true := by
  obtain ⟨c, ds, hwhole⟩ := List.exists_cons_of_ne_nil h.whole_ne
  refine ⟨c, ds ++ '.' :: fraction, ?_, h.digits_whole c (by simp [hwhole])⟩
  rw [h.eq, hwhole, List.cons_append]

theorem fixedPoint_shape (n : Nat) :
    ∃ whole fraction, FixedPoint (fixedPoint n) whole fraction ∧ Decimal.digitsValue (whole ++ fraction) = n := by
  have hlength : (zeroPadded 6 (n % 10 ^ 6)).length = 6 := length_zeroPadded (by decide) (Nat.mod_lt _ (by norm_num))
  refine ⟨_, _, ⟨fixedPoint_eq n, Nat.toDigits_ne_nil, ?_, hlength, ?_⟩, ?_⟩
  · intro c hc
    exact Nat.isDigit_of_mem_toDigits (by decide) (by decide) hc
  · intro c hc
    exact isDigit_of_mem_zeroPadded hc
  · have hvalue := Decimal.digitsValue_append (Nat.toDigits 10 (n / 10 ^ 6)) (zeroPadded 6 (n % 10 ^ 6))
    rw [hlength, Decimal.digitsValue_toDigits, Decimal.digitsValue_zeroPadded, Nat.div_add_mod] at hvalue
    exact hvalue

/-- the sign that canonical text starts with -/
def signText (negative : Bool) : List Char := if negative then ['-'] else []

theorem Binary64.toList_canonical (x : Binary64) :
    x.canonical.toList = signText x.negative ++ fixedPoint (roundHalfEven (x.units * 10 ^ 6) Binary64.one) := by
  have hmillion : tenPow fractionDigits = 10 ^ 6 := rfl
  simp only [canonical, String.toList_ofList, hmillion, signText]
  split_ifs
  · rw [List.singleton_append]
  · rw [List.nil_append]

/-! ## Reading -/

theorem Decimal.splitSign_digit {c : Char} (hc : c.isDigit = true) (cs : List Char) :
    splitSign (c :: cs) = (false, c :: cs) := by
  rw [splitSign]
  · rintro rest ⟨rfl, -⟩
    exact ne_of_isDigit hc rfl rfl
  · rintro rest ⟨rfl, -⟩
    exact ne_of_isDigit hc rfl rfl

theorem FixedPoint.splitSign {cs whole fraction : List Char} (h : FixedPoint cs whole fraction) (negative : Bool) :
    Decimal.splitSign (signText negative ++ cs) = (negative, cs) := by
  obtain ⟨c, ds, rfl, hdigit⟩ := h.exists_digit
  cases negative with
  | true => rfl
  | false => exact Decimal.splitSign_digit hdigit ds

/-- digits are split off up to the first character that is none -/
theorem takeWhile_isDigit {cs rest : List Char} (h : ∀ c ∈ cs, c.isDigit = true)
    (hrest : ∀ c ∈ rest.head?, c.isDigit = false) :
    (cs ++ rest).takeWhile Char.isDigit = cs ∧ (cs ++ rest).dropWhile Char.isDigit = rest := by
  rw [List.takeWhile_append_of_pos h, List.dropWhile_append_of_pos h]
  cases rest with
  | nil => simp
  | cons c rest => simp [hrest c rfl]

theorem isDigit_point (cs : List Char) : ∀ c ∈ ('.' :: cs).head?, c.isDigit = false := by
  rintro c ⟨⟩
  rfl

/-- a point between digits reads as the decimal that it shows -/
theorem FixedPoint.ofChars? {cs whole fraction : List Char} (h : FixedPoint cs whole fraction) (negative : Bool) :
    Decimal.ofChars? (signText negative ++ cs) = some ⟨negative, Decimal.digitsValue (whole ++ fraction), -6⟩ := by
  obtain ⟨htake, hdrop⟩ := takeWhile_isDigit h.digits_whole (isDigit_point fraction)
  have htakeFraction : fraction.takeWhile Char.isDigit = fraction := List.takeWhile_eq_self_iff.2 h.digits_fraction
  have hdropFraction : fraction.dropWhile Char.isDigit = [] := List.dropWhile_eq_nil_iff.2 h.digits_fraction
  rw [Decimal.ofChars?, h.splitSign, h.eq]
  simp only [htake, hdrop, Decimal.splitFraction, htakeFraction, hdropFraction, h.whole_ne, false_and, if_false,
    Decimal.exponent?, Option.map_some, h.length_fraction]
  rfl

theorem ofChars?_signed_fixedPoint (negative : Bool) (n : Nat) :
    Decimal.ofChars? (signText negative ++ fixedPoint n) = some ⟨negative, n, -6⟩ := by
  obtain ⟨whole, fraction, hshape, hvalue⟩ := fixedPoint_shape n
  rw [hshape.ofChars? negative, hvalue]

/-! ## Writing what was read -/

theorem Decimal.representable_units {digits : Nat} {exponent : Int} (h : units digits exponent < Binary64.bound) :
    Binary64.Representable (units digits exponent) := by
  have hzero : Binary64.Representable 0 := dvd_zero _
  cases exponent with
  | ofNat e =>
    rw [units] at h ⊢
    split_ifs at h ⊢ with h0 hhuge
    · exact hzero
    · exact absurd h (lt_irrefl _)
    · exact Binary64.representable_nearest _ (by decide)
  | negSucc e =>
    rw [units]
    split_ifs
    · exact hzero
    · exact Binary64.representable_nearest _ (Nat.pow_pos (by decide))

/-- numbers that are read are in range and have at most 53 significant bits -/
theorem representable_readNumber? {text : String} {x : Binary64} (h : readNumber? text = some x) :
    x.units < Binary64.bound ∧ Binary64.Representable x.units := by
  obtain ⟨d, -, hd⟩ := Option.bind_eq_some_iff.1 h
  rw [Decimal.toBinary64?, Binary64.ofUnits?] at hd
  split_ifs at hd with hbound
  obtain rfl := Option.some.inj hd
  exact ⟨hbound, Decimal.representable_units hbound⟩

/-- exponents that are not expanded stand for less than half a unit -/
theorem Decimal.lt_of_log2 {digits e : Nat} (h : digits.log2 + 1076 ≤ 3 * (e + 1)) :
    2 * (digits * Binary64.one) < 10 ^ (e + 1) := by
  have hdigits : digits < 2 ^ (digits.log2 + 1) := Nat.lt_log2_self
  have hone : Binary64.one = 2 ^ 1074 := twoPow_eq 1074
  have hpos : 0 < Binary64.one := twoPow_pos 1074
  calc 2 * (digits * Binary64.one) < 2 * (2 ^ (digits.log2 + 1) * Binary64.one) :=
        Nat.mul_lt_mul_of_pos_left (Nat.mul_lt_mul_of_pos_right hdigits hpos) (by decide)
    _ = 2 ^ (digits.log2 + 1076) := by rw [hone, ← Nat.pow_add, ← Nat.pow_succ']
    _ ≤ 2 ^ (3 * (e + 1)) := Nat.pow_le_pow_right (by decide) h
    _ = 8 ^ (e + 1) := by rw [Nat.pow_mul]
    _ ≤ 10 ^ (e + 1) := Nat.pow_le_pow_left (by decide) _

/-- with so many of its digits behind the point, a decimal is read as the quotient that it is -/
theorem Decimal.units_neg (digits places : Nat) :
    units digits (-(places : Int)) = Binary64.nearest (digits * Binary64.one) (10 ^ places) := by
  cases places with
  | zero =>
    have hexponent : -((0 : Nat) : Int) = .ofNat 0 := rfl
    have hten : tenPow 0 = 1 := rfl
    rw [hexponent, units, if_neg (by decide : ¬hugeExponent ≤ 0), hten, Nat.mul_one, pow_zero]
    split_ifs with hzero
    · rw [hzero, Nat.zero_mul, Binary64.nearest_of_tiny (by decide)]
    · rfl
  | succ e =>
    have hexponent : -((e + 1 : Nat) : Int) = .negSucc e := rfl
    have hten : tenPow (e + 1) = 10 ^ (e + 1) := rfl
    rw [hexponent, units, hten]
    split_ifs with htiny
    · exact (Binary64.nearest_of_tiny (lt_of_log2 htiny)).symm
    · rfl

theorem Decimal.units_millionths (n : Nat) : units n (-6) = Binary64.nearest (n * Binary64.one) (10 ^ 6) := units_neg n 6

theorem two_pow_lt_twoPow {k n : Nat} (h : k < n) : 2 ^ k < twoPow n := Nat.pow_lt_pow_right (by decide) h

/-- the canonical text of a number reads as a number with the same canonical text -/
theorem canonicalize_canonical {x : Binary64} (hbound : x.units < Binary64.bound)
    (hrepresentable : Binary64.Representable x.units) : canonicalize x.canonical = some x.canonical := by
  have hone : Binary64.one = 2 ^ 1074 := twoPow_eq 1074
  obtain ⟨hround, hread⟩ := Binary64.roundHalfEven_nearest (by decide : 20 ≤ 1074) hrepresentable
  rw [← hone] at hround hread
  set n := roundHalfEven (x.units * 10 ^ 6) Binary64.one with hn
  set y := Binary64.nearest (n * Binary64.one) (10 ^ 6) with hy
  have hrange : y < Binary64.bound := by
    rcases hread with hsame | hsmall
    · rwa [hsame]
    · exact hsmall.trans_lt (two_pow_lt_twoPow (by decide : 1074 + 33 < 2098))
  have hreads : readNumber? x.canonical = some ⟨x.negative, y⟩ := by
    rw [readNumber?, x.toList_canonical, ofChars?_signed_fixedPoint, Option.bind_some, Decimal.toBinary64?,
      Decimal.units_millionths, ← hn, ← hy, Binary64.ofUnits?, if_pos hrange]
  have htext : Binary64.canonical ⟨x.negative, y⟩ = x.canonical := by
    apply String.toList_inj.1
    rw [Binary64.toList_canonical, Binary64.toList_canonical, ← hn, hround]
  rw [canonicalize, hreads, Option.map_some, htext]

/-- **Canonical text is a fixed point** -/
theorem canonicalize_canonicalize {text canonical : String} (h : canonicalize text = some canonical) :
    canonicalize canonical = some canonical := by
  obtain ⟨x, hx, rfl⟩ := Option.map_eq_some_iff.1 h
  obtain ⟨hbound, hrepresentable⟩ := representable_readNumber? hx
  exact canonicalize_canonical hbound hrepresentable

/-- canonical text is a point between digits, perhaps after a minus sign -/
theorem canonicalize_shape {text canonical : String} (h : canonicalize text = some canonical) :
    ∃ negative cs whole fraction, canonical.toList = signText negative ++ cs ∧ FixedPoint cs whole fraction := by
  obtain ⟨x, -, rfl⟩ := Option.map_eq_some_iff.1 h
  obtain ⟨whole, fraction, hshape, -⟩ := fixedPoint_shape (roundHalfEven (x.units * 10 ^ 6) Binary64.one)
  exact ⟨x.negative, _, whole, fraction, x.toList_canonical, hshape⟩

end Formula
