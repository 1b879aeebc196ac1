/-
Amounts are kept exactly.

An `Amount` is number text as money is written: digits, perhaps a minus sign before them, perhaps a point and up to six
digits after them. Below 2^33 a binary number lies so close to each such decimal that its sixth digit cannot change
(`roundHalfEven_nearest_amount`), so that reading and writing an amount gives the same decimal, digit by digit:
`canonicalize_amount`. The bound is sharp.
-/
import Mathlib.Tactic
import Formula.Proofs.Numerals

namespace Formula

/-! ## Digits -/

theorem exists_digitChar {c : Char} (h : c.isDigit = true) : ∃ n < 10, c = Nat.digitChar n := by
  have hc : Char.ofNat c.toNat = c := Char.ofNat_toNat c
  have hrange : 48 ≤ c.toNat ∧ c.toNat ≤ 57 := by simpa [Char.isDigit, UInt32.le_iff_toNat_le] using h
  obtain ⟨hlow, hhigh⟩ := hrange
  refine ⟨c.toNat - 48, by omega, ?_⟩
  rw [← hc]
  generalize c.toNat = m at hlow hhigh
  interval_cases m <;> rfl

/-- digits without superfluous zeros in front -/
def trimZeros : List Char → List Char
  | '0' :: c :: cs => trimZeros (c :: cs)
  | cs => cs

theorem toDigits_ofDigitChars {cs : List Char} (h : ∀ c ∈ cs, c.isDigit = true) {start : Nat} (hstart : 0 < start) :
    Nat.toDigits 10 (Nat.ofDigitChars 10 cs start) = Nat.toDigits 10 start ++ cs := by
  induction cs generalizing start with
  | nil => rw [Nat.ofDigitChars_nil, List.append_nil]
  | cons c cs ih =>
    obtain ⟨hc, hcs⟩ := List.forall_mem_cons.1 h
    obtain ⟨n, hn, rfl⟩ := exists_digitChar hc
    have hdigit : Nat.toDigits 10 start ++ [Nat.digitChar n] = Nat.toDigits 10 (10 * start + n) := by
      rw [← Nat.toDigits_of_lt_base hn]
      exact Nat.toDigits_append_toDigits (by decide) hstart hn
    rw [Nat.ofDigitChars_cons_digitChar_of_lt_ten hn, ih hcs (by omega), ← hdigit, List.append_assoc,
      List.singleton_append]

/-- a number is written with the digits that it is read from, without superfluous zeros -/
theorem toDigits_digitsValue {cs : List Char} (hne : cs ≠ []) (h : ∀ c ∈ cs, c.isDigit = true) :
    Nat.toDigits 10 (Decimal.digitsValue cs) = trimZeros cs := by
  fun_induction trimZeros cs with
  | case1 c cs ih =>
    have hzero : Decimal.digitsValue ('0' :: c :: cs) = Decimal.digitsValue (c :: cs) := by
      rw [Decimal.digitsValue, Nat.ofDigitChars_cons]
      rfl
    rw [hzero]
    exact ih (List.cons_ne_nil c cs) (List.forall_mem_cons.1 h).2
  | case2 cs hcs =>
    obtain ⟨c, rest, rfl⟩ := List.exists_cons_of_ne_nil hne
    obtain ⟨hc, hrest⟩ := List.forall_mem_cons.1 h
    obtain ⟨n, hn, rfl⟩ := exists_digitChar hc
    rw [Decimal.digitsValue, Nat.ofDigitChars_cons_digitChar_of_lt_ten hn, Nat.mul_zero, Nat.zero_add]
    rcases Nat.eq_zero_or_pos n with rfl | hpos
    · cases rest with
      | nil => rfl
      | cons d rest => exact absurd rfl (hcs d rest)
    · rw [toDigits_ofDigitChars hrest hpos, Nat.toDigits_of_lt_base hn, List.singleton_append]

theorem length_trimZeros_le (cs : List Char) : (trimZeros cs).length ≤ cs.length := by
  fun_induction trimZeros cs with
  | case1 c cs ih =>
    rw [List.length_cons]
    omega
  | case2 cs hcs => exact le_rfl

theorem replicate_append_trimZeros (cs : List Char) :
    List.replicate (cs.length - (trimZeros cs).length) '0' ++ trimZeros cs = cs := by
  fun_induction trimZeros cs with
  | case1 c cs ih =>
    have hle := length_trimZeros_le (c :: cs)
    have hlength : ('0' :: c :: cs).length - (trimZeros (c :: cs)).length =
        (c :: cs).length - (trimZeros (c :: cs)).length + 1 := by
      rw [List.length_cons]
      omega
    rw [hlength, List.replicate_succ, List.cons_append, ih]
  | case2 cs hcs => rw [Nat.sub_self, List.replicate_zero, List.nil_append]

/-- filled up to its old width, a number is written with the digits that it is read from -/
theorem zeroPadded_digitsValue {cs : List Char} (hne : cs ≠ []) (h : ∀ c ∈ cs, c.isDigit = true) :
    zeroPadded cs.length (Decimal.digitsValue cs) = cs := by
  rw [zeroPadded, toDigits_digitsValue hne h, replicate_append_trimZeros]

theorem Decimal.digitsValue_lt {cs : List Char} (hne : cs ≠ []) (h : ∀ c ∈ cs, c.isDigit = true) :
    digitsValue cs < 10 ^ cs.length := by
  rw [← Nat.length_toDigits_le_iff (by decide) (List.length_pos_iff.2 hne), toDigits_digitsValue hne h]
  exact length_trimZeros_le cs

/-- whole digits and six more are written with a point between them -/
theorem fixedPoint_digitsValue {whole fraction : List Char} (hne : whole ≠ []) (hwhole : ∀ c ∈ whole, c.isDigit = true)
    (hfraction : ∀ c ∈ fraction, c.isDigit = true) (hlength : fraction.length = 6) :
    fixedPoint (Decimal.digitsValue (whole ++ fraction)) = trimZeros whole ++ '.' :: fraction := by
  have hfraction_ne : fraction ≠ [] := by
    rintro rfl
    cases hlength
  have hlt : Decimal.digitsValue fraction < 10 ^ 6 := hlength ▸ Decimal.digitsValue_lt hfraction_ne hfraction
  have hdiv : Decimal.digitsValue (whole ++ fraction) / 10 ^ 6 = Decimal.digitsValue whole := by
    rw [Decimal.digitsValue_append, hlength]
    omega
  have hmod : Decimal.digitsValue (whole ++ fraction) % 10 ^ 6 = Decimal.digitsValue fraction := by
    rw [Decimal.digitsValue_append, hlength]
    omega
  rw [fixedPoint_eq, hdiv, hmod, toDigits_digitsValue hne hwhole, ← hlength, zeroPadded_digitsValue hfraction_ne hfraction]

/-! ## Rounding -/

namespace Binary64

/-- below 2^33 binary numbers are closer to each other than 2^-20, where `2 ^ e` units make 1 -/
theorem surplus_amount {e digits places : Nat} (he : 20 ≤ e) (hsmall : digits < 2 ^ 33 * 10 ^ places) :
    surplus (digits * 2 ^ e / 10 ^ places) ≤ e - 20 := by
  have hexponent : e - 20 + 53 = 33 + e := by omega
  apply surplus_le
  rw [Nat.div_lt_iff_lt_mul (Nat.pow_pos (by decide))]
  calc digits * 2 ^ e < 2 ^ 33 * 10 ^ places * 2 ^ e := Nat.mul_lt_mul_of_pos_right hsmall (Nat.two_pow_pos e)
    _ = 2 ^ (e - 20 + 53) * 10 ^ places := by rw [hexponent, Nat.pow_add]; ring

/-- **Below 2^33 the sixth decimal survives.** A decimal of at most six places is read as a number that rounds back to its
millionths. -/
theorem roundHalfEven_nearest_amount {e digits places : Nat} (he : 20 ≤ e) (hplaces : places ≤ 6)
    (hsmall : digits < 2 ^ 33 * 10 ^ places) :
    roundHalfEven (nearest (digits * 2 ^ e) (10 ^ places) * 10 ^ 6) (2 ^ e) = digits * 10 ^ (6 - places) := by
  have hten : 0 < 10 ^ places := Nat.pow_pos (by decide)
  have hmillion : 10 ^ places * 10 ^ (6 - places) = 10 ^ 6 := by rw [← Nat.pow_add, Nat.add_sub_cancel' hplaces]
  have hsurplus := surplus_amount he hsmall
  -- so they are closer to each other than the millionths are
  have hspacing : 10 ^ 6 * 2 ^ surplus (digits * 2 ^ e / 10 ^ places) < 2 ^ e := by
    have hexponent : 20 + (e - 20) = e := by omega
    calc 10 ^ 6 * 2 ^ surplus (digits * 2 ^ e / 10 ^ places)
        ≤ 10 ^ 6 * 2 ^ (e - 20) := Nat.mul_le_mul_left _ (Nat.pow_le_pow_right (by decide) hsurplus)
      _ < 2 ^ 20 * 2 ^ (e - 20) := Nat.mul_lt_mul_of_pos_right (by norm_num) (Nat.two_pow_pos _)
      _ = 2 ^ e := by rw [← Nat.pow_add, hexponent]
  obtain ⟨hlow, hhigh⟩ := nearest_within (digits * 2 ^ e) hten
  have hscale := Nat.mul_le_mul_right (10 ^ (6 - places)) hlow
  have hscale' := Nat.mul_le_mul_right (10 ^ (6 - places)) hhigh
  generalize surplus (digits * 2 ^ e / 10 ^ places) = s at *
  generalize nearest (digits * 2 ^ e) (10 ^ places) = u at *
  have hleft : 2 * (digits * 2 ^ e) * 10 ^ (6 - places) = 2 * (digits * 10 ^ (6 - places) * 2 ^ e) := by ring
  have hright : 2 * (u * 10 ^ places) * 10 ^ (6 - places) = 2 * (u * 10 ^ 6) := by rw [← hmillion]; ring
  have herror : 10 ^ places * 2 ^ s * 10 ^ (6 - places) = 10 ^ 6 * 2 ^ s := by rw [← hmillion]; ring
  rw [Nat.add_mul, hleft, hright, herror] at hscale hscale'
  apply roundHalfEven_eq
  · omega
  · omega

theorem nearest_amount_le {e digits places : Nat} (he : 20 ≤ e) (hsmall : digits < 2 ^ 33 * 10 ^ places) :
    nearest (digits * 2 ^ e) (10 ^ places) ≤ 2 ^ (e + 33) := by
  have hsurplus := surplus_amount he hsmall
  refine (nearest_le _ (Nat.pow_pos (by decide))).trans (Nat.pow_le_pow_right (by decide) ?_)
  omega

end Binary64

/-! ## Amounts -/

/-- digits, perhaps a minus sign before them, perhaps a point and up to six digits after them -/
structure Amount where
  negative : Bool
  whole : List Char
  /-- the digits after the point; there is no point without them -/
  fraction : List Char
  whole_ne : whole ≠ []
  whole_all : ∀ c ∈ whole, c.isDigit = true
  fraction_all : ∀ c ∈ fraction, c.isDigit = true
  fraction_le : fraction.length ≤ 6

namespace Amount

/-- the amount as it stands -/
def text (a : Amount) : String :=
  String.ofList (signText a.negative ++ (a.whole ++ if a.fraction = [] then [] else '.' :: a.fraction))

/-- the fraction filled up with zeros to six digits -/
def millionths (a : Amount) : List Char := a.fraction ++ List.replicate (6 - a.fraction.length) '0'

/-- the same decimal with six digits after the point and no superfluous zeros before it -/
def exact (a : Amount) : String := String.ofList (signText a.negative ++ (trimZeros a.whole ++ '.' :: a.millionths))

/-- the digits without the point -/
def digits (a : Amount) : Nat := Decimal.digitsValue (a.whole ++ a.fraction)

def decimal (a : Amount) : Decimal := ⟨a.negative, a.digits, -(a.fraction.length : ℤ)⟩

/-- an amount is number text without an exponent -/
def numeral (a : Amount) : Numeral where
  sign := if a.negative then .minus else .absent
  whole := a.whole
  fraction? := if a.fraction = [] then none else some a.fraction
  exponent? := none
  whole_all := a.whole_all
  fraction_all := by
    split_ifs
    · simp
    · exact a.fraction_all
  digits_ne := fun h => a.whole_ne h.1

theorem chars_numeral (a : Amount) : a.numeral.chars = a.text.toList := by
  simp only [Numeral.chars, numeral, Numeral.Sign.chars_ite, Numeral.exponentChars, List.append_nil, text, String.toList_ofList]
  split_ifs <;> rfl

theorem decimal_numeral (a : Amount) : a.numeral.decimal = a.decimal := by
  have hsign : (if a.negative then Numeral.Sign.minus else .absent).isMinus = a.negative := by
    cases a.negative <;> rfl
  have hfraction : a.numeral.fraction = a.fraction := by
    simp only [Numeral.fraction, numeral]
    split_ifs with hnil
    · exact hnil.symm
    · rfl
  rw [Numeral.decimal, hfraction]
  simp only [numeral, hsign, Numeral.exponentValue, zero_sub, decimal, digits]

theorem ofChars?_text (a : Amount) : Decimal.ofChars? a.text.toList = some a.decimal :=
  Decimal.ofChars?_eq_some_iff.2 ⟨a.numeral, a.chars_numeral, a.decimal_numeral⟩

theorem magnitude_decimal (a : Amount) : a.decimal.magnitude = a.digits / 10 ^ a.fraction.length := by
  rw [Decimal.magnitude, decimal, zpow_neg, zpow_natCast, div_eq_mul_inv]

theorem digits_lt {a : Amount} (h : |a.decimal.value| < 2 ^ 33) : a.digits < 2 ^ 33 * 10 ^ a.fraction.length := by
  have hten : (0 : ℚ) < 10 ^ a.fraction.length := by positivity
  have hnonneg : (0 : ℚ) ≤ a.digits / 10 ^ a.fraction.length := by positivity
  rw [Decimal.value, abs_signed, magnitude_decimal, abs_of_nonneg hnonneg, div_lt_iff₀ hten] at h
  exact_mod_cast h

theorem length_millionths (a : Amount) : a.millionths.length = 6 := by
  rw [millionths, List.length_append, List.length_replicate, Nat.add_sub_cancel' a.fraction_le]

theorem millionths_all (a : Amount) : ∀ c ∈ a.millionths, c.isDigit = true := by
  intro c hc
  rcases List.mem_append.1 hc with hfraction | hzero
  · exact a.fraction_all c hfraction
  · rw [List.eq_of_mem_replicate hzero]
    rfl

theorem digitsValue_millionths (a : Amount) :
    Decimal.digitsValue (a.whole ++ a.millionths) = a.digits * 10 ^ (6 - a.fraction.length) := by
  rw [millionths, ← List.append_assoc, Decimal.digitsValue_append, Decimal.digitsValue_zeros, List.length_replicate,
    Nat.add_zero, Nat.mul_comm, digits]

/-- the binary number that an amount is read as, in units -/
def units (a : Amount) : Nat := Decimal.units a.digits (-(a.fraction.length : ℤ))

theorem units_eq (a : Amount) : a.units = Binary64.nearest (a.digits * 2 ^ 1074) (10 ^ a.fraction.length) := by
  have hone : Binary64.one = 2 ^ 1074 := twoPow_eq 1074
  rw [units, Decimal.units_neg, hone]

theorem units_lt {a : Amount} (h : a.digits < 2 ^ 33 * 10 ^ a.fraction.length) : a.units < Binary64.bound := by
  have hle := Binary64.nearest_amount_le (by decide : 20 ≤ 1074) h
  rw [← units_eq] at hle
  exact hle.trans_lt (two_pow_lt_twoPow (by decide : 1074 + 33 < 2098))

/-- the millionths of an amount below 2^33 survive -/
theorem round_units {a : Amount} (h : a.digits < 2 ^ 33 * 10 ^ a.fraction.length) :
    roundHalfEven (a.units * 10 ^ 6) Binary64.one = a.digits * 10 ^ (6 - a.fraction.length) := by
  have hone : Binary64.one = 2 ^ 1074 := twoPow_eq 1074
  have hround := Binary64.roundHalfEven_nearest_amount (by decide : 20 ≤ 1074) a.fraction_le h
  rw [← units_eq, ← hone] at hround
  exact hround

theorem canonical_units {a : Amount} (h : a.digits < 2 ^ 33 * 10 ^ a.fraction.length) :
    Binary64.canonical ⟨a.negative, a.units⟩ = a.exact := by
  apply String.toList_inj.1
  rw [Binary64.toList_canonical, round_units h, ← digitsValue_millionths,
    fixedPoint_digitsValue a.whole_ne a.whole_all a.millionths_all a.length_millionths, exact, String.toList_ofList]

/-- counted in millionths, an amount is of the same magnitude -/
theorem cast_millionths (a : Amount) :
    ((a.digits * 10 ^ (6 - a.fraction.length) : ℕ) : ℚ) / 10 ^ 6 = a.decimal.magnitude := by
  have hmillion : (10 : ℚ) ^ 6 = 10 ^ a.fraction.length * 10 ^ (6 - a.fraction.length) := by
    rw [← pow_add, Nat.add_sub_cancel' a.fraction_le]
  rw [a.magnitude_decimal, hmillion]
  push_cast
  field_simp

end Amount

/-- **Amounts are kept exactly.** An amount shows one number. If that is below 2^33, the canonical form is the same decimal
with six digits after the point, and it shows the same number. -/
theorem canonicalize_amount (a : Amount) :
    (∃! x, Denotes a.text x) ∧
      ∀ x, Denotes a.text x → |x| < 2 ^ 33 → canonicalize a.text = some a.exact ∧ Denotes a.exact x := by
  have hread := a.ofChars?_text
  have hshows : Denotes a.text a.decimal.value := denotes_iff.2 ⟨_, hread, rfl⟩
  refine ⟨⟨_, hshows, fun _ h => denotes_unique h hshows⟩, ?_⟩
  intro x hx hsmall
  obtain rfl := denotes_unique hx hshows
  have hdigits := Amount.digits_lt hsmall
  have htext := Amount.canonical_units hdigits
  refine ⟨canonicalize_eq_some_iff.2 ⟨a.decimal, hread, Amount.units_lt hdigits, htext⟩, ?_⟩
  have hwritten := denotes_canonical ⟨a.negative, a.units⟩
  rw [htext, Amount.round_units hdigits, a.cast_millionths] at hwritten
  exact hwritten

/-- a large amount with zeros in front -/
def largeAmount : Amount where
  negative := true
  whole := "008589934591".toList
  fraction := "99999".toList
  whole_ne := by decide
  whole_all := List.all_eq_true.1 (by decide)
  fraction_all := List.all_eq_true.1 (by decide)
  fraction_le := by decide

theorem canonicalize_amount_large :
    largeAmount.text = "-008589934591.99999" ∧ Denotes "-008589934591.99999" (-8589934591.99999) ∧
      |(-8589934591.99999 : ℚ)| < 2 ^ 33 ∧ canonicalize "-008589934591.99999" = some "-8589934591.999990" := by
  have htext : largeAmount.text = "-008589934591.99999" := by decide +kernel
  have hexact : largeAmount.exact = "-8589934591.999990" := by decide +kernel
  have hdigits : largeAmount.digits = 858993459199999 := by decide +kernel
  have hlength : largeAmount.fraction.length = 5 := by decide
  have hvalue : largeAmount.decimal.value = -8589934591.99999 := by
    change -largeAmount.decimal.magnitude = -8589934591.99999
    rw [largeAmount.magnitude_decimal, hdigits, hlength]
    norm_num
  have hx : Denotes largeAmount.text (-8589934591.99999) := denotes_iff.2 ⟨_, largeAmount.ofChars?_text, hvalue⟩
  have hsmall : |(-8589934591.99999 : ℚ)| < 2 ^ 33 := by norm_num [abs_lt]
  rw [← htext, ← hexact]
  exact ⟨htext, hx, hsmall, ((canonicalize_amount largeAmount).2 _ hx hsmall).1⟩

-- from 2^33 on the binary numbers are too far apart
example : canonicalize "8589934592.000001" = some "8589934592.000002" := by decide +kernel

end Formula
