/-
Number text and the exact number that it shows.

A `Numeral` is number text in its parts: a sign, digits before and after a point, an exponent. Its value is a fraction, with
nothing rounded. `Decimal.ofChars?_eq_some_iff`: the texts that can be read as decimals are those of numerals, and they are
read as the parts say. So a text shows one number at most (`denotes_unique`), and canonical text shows the millionths that
it was written from (`denotes_canonical`).
-/
import Mathlib.Tactic
import Mathlib.Data.List.TakeWhile
import Formula.Proofs.CanonicalText

namespace Formula

/-! ## Parts of a number text -/

/-- `x`, or its negative -/
def signed {α : Type} [Neg α] (negative : Bool) (x : α) : α := if negative then -x else x

theorem abs_signed (negative : Bool) (x : ℚ) : |signed negative x| = |x| := by
  cases negative with
  | false => rfl
  | true => exact abs_neg x

namespace Numeral

/-- a sign, or none -/
inductive Sign where
  | absent
  | plus
  | minus
deriving DecidableEq, Repr

def Sign.chars : Sign → List Char
  | .absent => []
  | .plus => ['+']
  | .minus => ['-']

def Sign.isMinus : Sign → Bool
  | .minus => true
  | .absent | .plus => false

/-- a mark, a sign and digits -/
structure Exponent where
  mark : Char
  sign : Sign
  digits : List Char
  mark_eq : mark = 'e' ∨ mark = 'E'
  digits_ne : digits ≠ []
  digits_all : ∀ c ∈ digits, c.isDigit = true

def Exponent.chars (e : Exponent) : List Char := e.mark :: (e.sign.chars ++ e.digits)

def Exponent.value (e : Exponent) : ℤ := signed e.sign.isMinus (Decimal.digitsValue e.digits : ℤ)

/-- an exponent, if there is one -/
def exponentChars : Option Exponent → List Char
  | none => []
  | some e => e.chars

def exponentValue : Option Exponent → ℤ
  | none => 0
  | some e => e.value

/-- a point and digits, if there is a point -/
def pointChars : Option (List Char) → List Char
  | none => []
  | some ds => '.' :: ds

end Numeral

/-- number text in its parts: at least one digit stands before or after the point -/
structure Numeral where
  sign : Numeral.Sign
  whole : List Char
  /-- the digits after the point, if there is a point -/
  fraction? : Option (List Char)
  exponent? : Option Numeral.Exponent
  whole_all : ∀ c ∈ whole, c.isDigit = true
  fraction_all : ∀ c ∈ fraction?.getD [], c.isDigit = true
  digits_ne : ¬(whole = [] ∧ fraction?.getD [] = [])

namespace Numeral

def fraction (n : Numeral) : List Char := n.fraction?.getD []

def chars (n : Numeral) : List Char :=
  n.sign.chars ++ (n.whole ++ (pointChars n.fraction? ++ exponentChars n.exponent?))

/-- the whole part and the fraction as they stand, scaled by the exponent -/
def value (n : Numeral) : ℚ :=
  signed n.sign.isMinus ((Decimal.digitsValue n.whole + Decimal.digitsValue n.fraction / 10 ^ n.fraction.length) *
    10 ^ exponentValue n.exponent?)

/-- the decimal that the numeral is read as -/
def decimal (n : Numeral) : Decimal :=
  ⟨n.sign.isMinus, Decimal.digitsValue (n.whole ++ n.fraction), exponentValue n.exponent? - n.fraction.length⟩

end Numeral

/-- `text` is number text for `x` -/
def Denotes (text : String) (x : ℚ) : Prop := ∃ n : Numeral, n.chars = text.toList ∧ n.value = x

/-- the exact magnitude of a decimal -/
def Decimal.magnitude (d : Decimal) : ℚ := d.digits * 10 ^ d.exponent

/-- the exact value of a decimal -/
def Decimal.value (d : Decimal) : ℚ := signed d.negative d.magnitude

theorem Numeral.value_decimal (n : Numeral) : n.decimal.value = n.value := by
  have hten : (10 : ℚ) ^ n.fraction.length ≠ 0 := pow_ne_zero _ (by norm_num)
  have hdigits := Decimal.digitsValue_append n.whole n.fraction
  simp only [Decimal.value, Decimal.magnitude, value, decimal, hdigits]
  congr 1
  rw [zpow_sub₀ (by norm_num), zpow_natCast]
  push_cast
  field_simp

/-! ## Reading -/

namespace Numeral

theorem Sign.chars_ite (negative : Bool) : (if negative then Sign.minus else .absent).chars = signText negative := by
  cases negative <;> rfl

/-- a sign is split off what does not start with one -/
theorem Sign.splitSign_chars (s : Sign) {cs : List Char} (h : ∀ c ∈ cs.head?, c ≠ '-' ∧ c ≠ '+') :
    Decimal.splitSign (s.chars ++ cs) = (s.isMinus, cs) := by
  cases s with
  | plus => rfl
  | minus => rfl
  | absent =>
    rw [Sign.chars, List.nil_append, Decimal.splitSign]
    · rfl
    · rintro rest rfl
      exact (h '-' rfl).1 rfl
    · rintro rest rfl
      exact (h '+' rfl).2 rfl

theorem Sign.exists_splitSign (cs : List Char) :
    ∃ s : Sign, ∃ rest, cs = s.chars ++ rest ∧ Decimal.splitSign cs = (s.isMinus, rest) := by
  unfold Decimal.splitSign
  split
  · exact ⟨.minus, _, rfl, rfl⟩
  · exact ⟨.plus, _, rfl, rfl⟩
  · exact ⟨.absent, _, rfl, rfl⟩

theorem not_sign_of_isDigit {c : Char} (h : c.isDigit = true) : c ≠ '-' ∧ c ≠ '+' :=
  ⟨ne_of_isDigit h rfl, ne_of_isDigit h rfl⟩

theorem Exponent.exponent?_chars (e : Exponent) : Decimal.exponent? e.chars = some e.value := by
  have hhead : ∀ c ∈ e.digits.head?, c ≠ '-' ∧ c ≠ '+' := fun c hc =>
    not_sign_of_isDigit (e.digits_all c (List.mem_of_mem_head? hc))
  have hall : e.digits.all Char.isDigit = true := List.all_eq_true.2 e.digits_all
  rw [chars, Decimal.exponent?, e.sign.splitSign_chars hhead]
  exact if_pos ⟨e.mark_eq, e.digits_ne, hall⟩

/-- an exponent that can be read is nothing, or a mark, a sign and digits -/
theorem exponent?_eq_some_iff {cs : List Char} {k : ℤ} :
    Decimal.exponent? cs = some k ↔ ∃ e? : Option Exponent, exponentChars e? = cs ∧ exponentValue e? = k := by
  constructor
  · intro h
    cases cs with
    | nil => exact ⟨none, rfl, Option.some.inj h⟩
    | cons mark rest =>
      obtain ⟨s, digits, rfl, hsplit⟩ := Sign.exists_splitSign rest
      rw [Decimal.exponent?, hsplit] at h
      obtain ⟨⟨hmark, hne, hall⟩, hvalue⟩ := Option.ite_none_right_eq_some.1 h
      exact ⟨some ⟨mark, s, digits, hmark, hne, List.all_eq_true.1 hall⟩, rfl, Option.some.inj hvalue⟩
  · rintro ⟨e?, rfl, rfl⟩
    cases e? with
    | none => rfl
    | some e => exact e.exponent?_chars

/-- no digit and no point starts an exponent -/
theorem head_exponentChars (e? : Option Exponent) : ∀ c ∈ (exponentChars e?).head?, c.isDigit = false ∧ c ≠ '.' := by
  cases e? with
  | none => simp [exponentChars]
  | some e =>
    rintro c ⟨⟩
    rcases e.mark_eq with hmark | hmark <;> rw [hmark] <;> decide

theorem splitFraction_chars {fraction? : Option (List Char)} (h : ∀ c ∈ fraction?.getD [], c.isDigit = true)
    (e? : Option Exponent) :
    Decimal.splitFraction (pointChars fraction? ++ exponentChars e?) = (fraction?.getD [], exponentChars e?) := by
  cases fraction? with
  | some ds =>
    have hds : ∀ c ∈ ds, c.isDigit = true := h
    obtain ⟨htake, hdrop⟩ := takeWhile_isDigit hds fun c hc => (head_exponentChars e? c hc).1
    rw [pointChars, List.cons_append, Decimal.splitFraction, htake, hdrop]
    rfl
  | none =>
    rw [pointChars, List.nil_append, Decimal.splitFraction]
    · rfl
    · intro rest hrest
      exact (head_exponentChars e? '.' (by rw [hrest]; rfl)).2 rfl

theorem head_pointChars (fraction? : Option (List Char)) (e? : Option Exponent) :
    ∀ c ∈ (pointChars fraction? ++ exponentChars e?).head?, c.isDigit = false := by
  cases fraction? with
  | some ds => exact isDigit_point _
  | none => exact fun c hc => (head_exponentChars e? c hc).1

/-- a digit or the point comes after the sign -/
theorem not_sign_head (n : Numeral) :
    ∀ c ∈ (n.whole ++ (pointChars n.fraction? ++ exponentChars n.exponent?)).head?, c ≠ '-' ∧ c ≠ '+' := by
  have hne := n.digits_ne
  have hall := n.whole_all
  rcases hwhole : n.whole with _ | ⟨d, ds⟩
  · cases hfraction : n.fraction? with
    | none => exact absurd ⟨hwhole, by rw [hfraction]; rfl⟩ hne
    | some fs =>
      rintro c ⟨⟩
      decide
  · rintro c ⟨⟩
    exact not_sign_of_isDigit (hall d (by rw [hwhole]; exact List.mem_cons_self))

/-- numerals are read as the decimals that they are -/
theorem ofChars?_chars (n : Numeral) : Decimal.ofChars? n.chars = some n.decimal := by
  obtain ⟨htake, hdrop⟩ := takeWhile_isDigit n.whole_all (head_pointChars n.fraction? n.exponent?)
  have hexponent : Decimal.exponent? (exponentChars n.exponent?) = some (exponentValue n.exponent?) :=
    exponent?_eq_some_iff.2 ⟨_, rfl, rfl⟩
  rw [chars, Decimal.ofChars?, n.sign.splitSign_chars n.not_sign_head]
  simp only [htake, hdrop, splitFraction_chars n.fraction_all, if_neg n.digits_ne, hexponent, Option.map_some]
  rfl

end Numeral

theorem Decimal.exists_splitFraction (cs : List Char) :
    ∃ fraction? rest, cs = Numeral.pointChars fraction? ++ rest ∧ splitFraction cs = (fraction?.getD [], rest) ∧
      ∀ c ∈ fraction?.getD [], c.isDigit = true := by
  unfold splitFraction
  split
  · rename_i rest
    refine ⟨some (rest.takeWhile Char.isDigit), rest.dropWhile Char.isDigit, ?_, rfl, ?_⟩
    · rw [Numeral.pointChars, List.cons_append, List.takeWhile_append_dropWhile]
    · intro c hc
      exact List.mem_takeWhile_imp hc
  · exact ⟨none, cs, rfl, rfl, by simp⟩

/-- **The texts that can be read as decimals are those of numerals** -/
theorem Decimal.ofChars?_eq_some_iff {cs : List Char} {d : Decimal} :
    ofChars? cs = some d ↔ ∃ n : Numeral, n.chars = cs ∧ n.decimal = d := by
  constructor
  · intro h
    obtain ⟨s, body, rfl, hsign⟩ := Numeral.Sign.exists_splitSign cs
    obtain ⟨fraction?, rest, hpoint, hfraction, hdigits⟩ := exists_splitFraction (body.dropWhile Char.isDigit)
    rw [ofChars?, hsign] at h
    simp only [hfraction] at h
    split_ifs at h with hne
    obtain ⟨k, hk, rfl⟩ := Option.map_eq_some_iff.1 h
    obtain ⟨e?, rfl, rfl⟩ := Numeral.exponent?_eq_some_iff.1 hk
    have hwhole : ∀ c ∈ body.takeWhile Char.isDigit, c.isDigit = true := fun c hc => List.mem_takeWhile_imp hc
    refine ⟨⟨s, _, fraction?, e?, hwhole, hdigits, hne⟩, ?_, rfl⟩
    rw [Numeral.chars, ← hpoint, List.takeWhile_append_dropWhile]
  · rintro ⟨n, rfl, rfl⟩
    exact n.ofChars?_chars

/-! ## Values -/

theorem denotes_iff {text : String} {x : ℚ} :
    Denotes text x ↔ ∃ d, Decimal.ofChars? text.toList = some d ∧ d.value = x := by
  constructor
  · rintro ⟨n, hchars, rfl⟩
    exact ⟨n.decimal, Decimal.ofChars?_eq_some_iff.2 ⟨n, hchars, rfl⟩, n.value_decimal⟩
  · rintro ⟨d, hd, rfl⟩
    obtain ⟨n, hchars, rfl⟩ := Decimal.ofChars?_eq_some_iff.1 hd
    exact ⟨n, hchars, n.value_decimal.symm⟩

/-- a text shows one number at most -/
theorem denotes_unique {text : String} {x y : ℚ} (hx : Denotes text x) (hy : Denotes text y) : x = y := by
  obtain ⟨d, hd, rfl⟩ := denotes_iff.1 hx
  obtain ⟨d', hd', rfl⟩ := denotes_iff.1 hy
  rw [Option.some.inj (hd.symm.trans hd')]

/-- number text is put into canonical form if it is a numeral that is read as a finite number -/
theorem canonicalize_eq_some_iff {text canonical : String} :
    canonicalize text = some canonical ↔
      ∃ d, Decimal.ofChars? text.toList = some d ∧ Decimal.units d.digits d.exponent < Binary64.bound ∧
        Binary64.canonical ⟨d.negative, Decimal.units d.digits d.exponent⟩ = canonical := by
  rw [canonicalize, readNumber?]
  constructor
  · intro h
    obtain ⟨x, hx, rfl⟩ := Option.map_eq_some_iff.1 h
    obtain ⟨d, hd, hread⟩ := Option.bind_eq_some_iff.1 hx
    rw [Decimal.toBinary64?, Binary64.ofUnits?] at hread
    obtain ⟨hbound, hvalue⟩ := Option.ite_none_right_eq_some.1 hread
    obtain rfl := Option.some.inj hvalue
    exact ⟨d, hd, hbound, rfl⟩
  · rintro ⟨d, hd, hbound, rfl⟩
    rw [hd, Option.bind_some, Decimal.toBinary64?, Binary64.ofUnits?, if_pos hbound, Option.map_some]

/-- canonical text shows the millionths that it was written from -/
theorem denotes_canonical (x : Binary64) :
    Denotes x.canonical (signed x.negative (roundHalfEven (x.units * 10 ^ 6) Binary64.one / 10 ^ 6)) := by
  have hmillionth : (10 : ℚ) ^ (-6 : ℤ) = (10 ^ 6)⁻¹ := by norm_num
  rw [denotes_iff]
  refine ⟨⟨x.negative, roundHalfEven (x.units * 10 ^ 6) Binary64.one, -6⟩, ?_, ?_⟩
  · rw [x.toList_canonical, ofChars?_signed_fixedPoint]
  · simp only [Decimal.value, Decimal.magnitude, hmillionth, div_eq_mul_inv]

end Formula
