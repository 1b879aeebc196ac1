/-
Numbers that are too large.

Between a power of two and its lower neighbour of 53 bits lies a middle. From there on a quotient rounds up to the power,
the middle included, since the tie goes to the even significand (`nearest_lt_two_pow_iff`). The powers of ten that are not
expanded lie far beyond. So number text of any kind is refused from 2^1024 - 2^970 on, and only there
(`canonicalize_eq_none_iff`).

`canonicalize_literal`: the number literals of formulas show a number each, whatever their length is, and are refused for
its size only; a formula fails for one of its number literals only if that is out of range.
-/
import Mathlib.Tactic
import Formula.Proofs.Failure
import Formula.Proofs.Monotonicity
import Formula.Proofs.Values

namespace Formula

/-! ## Rounding up to a power of two -/

namespace Binary64

/-- in the middle below a power of two the tie goes up -/
theorem nearest_middle (j : Nat) : nearest ((2 ^ 54 - 1) * 2 ^ j) 1 = 2 ^ (j + 54) := by
  have hpos : 0 < 2 ^ j := Nat.two_pow_pos j
  have hlow : 2 ^ (j + 1 + 52) ≤ (2 ^ 54 - 1) * 2 ^ j := by
    have hpow : 2 ^ (j + 1 + 52) = 2 ^ 53 * 2 ^ j := by ring
    rw [hpow]
    exact Nat.mul_le_mul_right _ (by norm_num)
  have hhigh : (2 ^ 54 - 1) * 2 ^ j < 2 ^ (j + 1 + 53) := by
    have hpow : 2 ^ (j + 1 + 53) = 2 ^ 54 * 2 ^ j := by ring
    rw [hpow]
    exact Nat.mul_lt_mul_of_pos_right (by norm_num) hpos
  have hsurplus : surplus ((2 ^ 54 - 1) * 2 ^ j) = j + 1 := le_antisymm (surplus_le hhigh) (le_surplus hlow)
  have hspacing : 1 * 2 ^ (j + 1) = 2 * 2 ^ j := by ring
  have htie : roundHalfEven (2 ^ 54 - 1) 2 = 2 ^ 53 := by decide
  rw [nearest_eq, Nat.div_one, hsurplus, hspacing, roundHalfEven_scale _ _ hpos, htie]
  ring

/-- **A quotient stays below a power of two up to the middle** between that power and its lower neighbour -/
theorem nearest_lt_two_pow_iff {n d : Nat} (hd : 0 < d) (j : Nat) :
    nearest n d < 2 ^ (j + 54) ↔ n < (2 ^ 54 - 1) * 2 ^ j * d := by
  constructor
  · intro hlt
    by_contra hge
    have hmiddle : nearest ((2 ^ 54 - 1) * 2 ^ j) 1 ≤ nearest n d := by
      apply nearest_mono Nat.one_pos hd
      rw [Nat.mul_one]
      exact not_lt.1 hge
    rw [nearest_middle] at hmiddle
    omega
  · intro hlt
    have hpow : 2 ^ (j + 54) = 2 ^ 54 * 2 ^ j := by ring
    have hquotient : n / d < 2 ^ (j + 1 + 53) := by
      rw [Nat.div_lt_iff_lt_mul hd]
      calc n < (2 ^ 54 - 1) * 2 ^ j * d := hlt
        _ ≤ 2 ^ 54 * 2 ^ j * d := Nat.mul_le_mul_right _ (Nat.mul_le_mul_right _ (by norm_num))
        _ = 2 ^ (j + 1 + 53) * d := by ring
    -- the spacing is at most that below the power, so that rounding adds at most half of it
    have hspacing : d * 2 ^ surplus (n / d) ≤ d * 2 ^ (j + 1) :=
      Nat.mul_le_mul_left _ (Nat.pow_le_pow_right (by decide) (surplus_le hquotient))
    have hwithin := (nearest_within n hd).2
    have hdouble : d * 2 ^ (j + 1) = 2 * (2 ^ j * d) := by ring
    have hless : (2 ^ 54 - 1) * 2 ^ j * d + 2 ^ j * d = 2 ^ (j + 54) * d := by
      rw [hpow]
      ring
    exact Nat.lt_of_mul_lt_mul_right (a := d) (by omega)

end Binary64

/-! ## Decimals -/

namespace Decimal

/-- the middle below a power of two, counted in units of which `2 ^ e` make 1 -/
theorem cast_middle (k e : Nat) : (((2 ^ 54 - 1) * 2 ^ (k + e) : ℕ) : ℚ) = (2 ^ (k + 54) - 2 ^ k) * 2 ^ e := by
  push_cast
  ring

/-- **A decimal is in range below 2^1024 - 2^970** -/
theorem units_lt_bound_iff (d : Decimal) : units d.digits d.exponent < Binary64.bound ↔ d.magnitude < 2 ^ 1024 - 2 ^ 970 := by
  have hbound : Binary64.bound = 2 ^ (970 + 1074 + 54) := twoPow_eq (970 + 1074 + 54)
  have hone : (Binary64.one : ℚ) = 2 ^ 1074 := by rw [Binary64.one, twoPow_eq, Nat.cast_pow, Nat.cast_ofNat]
  rcases exists_nearest_or_huge d.digits d.exponent with ⟨n, q, hq, hunits, hn⟩ | ⟨hunits, hhuge⟩
  · have hscale : (0 : ℚ) < 2 ^ 1074 * q := mul_pos (pow_pos two_pos _) (Nat.cast_pos.2 hq)
    have hmagnitude : (n : ℚ) = d.magnitude * (2 ^ 1074 * q) := by rw [hn, hone, magnitude, mul_assoc]
    have hmiddle : (((2 ^ 54 - 1) * 2 ^ (970 + 1074) * q : ℕ) : ℚ) = (2 ^ (970 + 54) - 2 ^ 970) * (2 ^ 1074 * q) := by
      rw [Nat.cast_mul, cast_middle, mul_assoc]
    rw [hunits, hbound, Binary64.nearest_lt_two_pow_iff hq, ← Nat.cast_lt (α := ℚ), hmagnitude, hmiddle]
    exact mul_lt_mul_iff_left₀ hscale
  · rw [hunits]
    constructor
    · intro hlt
      exact absurd hlt (lt_irrefl _)
    · intro hlt
      have hten : (2 : ℚ) ^ 1024 ≤ 10 ^ hugeExponent := by
        have hnat : 2 ^ 1024 ≤ 10 ^ hugeExponent := by decide +kernel
        exact_mod_cast hnat
      have hpos : (0 : ℚ) < 2 ^ 970 := pow_pos two_pos _
      have hreach : (2 : ℚ) ^ 1024 ≤ d.magnitude := hten.trans hhuge
      exact absurd (hlt.trans (sub_lt_self _ hpos)) hreach.not_gt

theorem abs_value (d : Decimal) : |d.value| = d.magnitude := by
  rw [value, abs_signed, abs_of_nonneg d.magnitude_nonneg]

end Decimal

/-- **Number text is refused from 2^1024 - 2^970 on** -/
theorem canonicalize_eq_none_iff {text : String} {x : ℚ} (h : Denotes text x) :
    canonicalize text = none ↔ 2 ^ 1024 - 2 ^ 970 ≤ |x| := by
  obtain ⟨d, hd, rfl⟩ := denotes_iff.1 h
  rw [d.abs_value, ← not_lt, ← d.units_lt_bound_iff]
  constructor
  · intro hnone hlt
    have hsome := canonicalize_eq_some_iff.2 ⟨d, hd, hlt, rfl⟩
    rw [hnone] at hsome
    cases hsome
  · intro hge
    by_contra hne
    obtain ⟨canonical, hcanonical⟩ := Option.ne_none_iff_exists'.1 hne
    obtain ⟨d', hd', hlt, -⟩ := canonicalize_eq_some_iff.1 hcanonical
    obtain rfl : d = d' := Option.some.inj (hd.symm.trans hd')
    exact hge hlt

/-! ## Literals -/

/-- number text without an exponent, with digits before the point -/
def Numeral.plain (negative : Bool) {digits : List Char} {fraction? : Option (List Char)}
    (hdigits : Lexer.IsRun Char.isDigit digits) (hfraction : ∀ c ∈ fraction?.getD [], c.isDigit = true) : Numeral where
  sign := if negative then .minus else .absent
  whole := digits
  fraction? := fraction?
  exponent? := none
  whole_all := hdigits.all
  fraction_all := hfraction
  digits_ne := fun hnil => hdigits.ne_nil hnil.1

theorem Numeral.chars_plain (negative : Bool) {digits : List Char} {fraction? : Option (List Char)}
    (hdigits : Lexer.IsRun Char.isDigit digits) (hfraction : ∀ c ∈ fraction?.getD [], c.isDigit = true) :
    (plain negative hdigits hfraction).chars = signText negative ++ (digits ++ pointChars fraction?) := by
  simp only [chars, plain, Sign.chars_ite, exponentChars, List.append_nil]

/-- an unsigned number is digits, and perhaps a point and more digits -/
theorem Lexer.IsUnsigned.exists_parts {w : List Char} (h : Lexer.IsUnsigned w) :
    ∃ digits fraction?, w = digits ++ Numeral.pointChars fraction? ∧ Lexer.IsRun Char.isDigit digits ∧
      ∀ c ∈ fraction?.getD [], c.isDigit = true := by
  cases h with
  | whole h => exact ⟨w, none, (List.append_nil w).symm, h, by simp⟩
  | @fraction digits _ h hf =>
    obtain @⟨fraction, hfraction⟩ := hf
    exact ⟨digits, some fraction, rfl, h, hfraction.all⟩

/-- what the lexer takes for a number is number text -/
theorem Lexer.IsNumeral.exists_denotes {text : String} (h : Lexer.IsNumeral text.toList) : ∃ x, Denotes text x := by
  obtain ⟨negative, v, htext, hv⟩ := h.exists_unsigned
  obtain ⟨digits, fraction?, rfl, hdigits, hfraction⟩ := hv.exists_parts
  refine ⟨_, .plain negative hdigits hfraction, ?_, rfl⟩
  rw [Numeral.chars_plain, htext]

theorem isRun_toDigits (n : Nat) : Lexer.IsRun Char.isDigit (Nat.toDigits 10 n) where
  ne_nil := Nat.toDigits_ne_nil
  all := fun _ => Nat.isDigit_of_mem_toDigits (by decide) (by decide)

/-- a whole number is shown by its digits -/
theorem denotes_toDigits (n : Nat) : Denotes (String.ofList (Nat.toDigits 10 n)) n := by
  have hfraction : ∀ c ∈ (none : Option (List Char)).getD [], c.isDigit = true := by simp
  refine ⟨.plain false (isRun_toDigits n) hfraction, ?_, ?_⟩
  · rw [Numeral.chars_plain, String.toList_ofList]
    exact List.append_nil _
  · simp [Numeral.value, Numeral.plain, signed, Numeral.Sign.isMinus, Numeral.fraction, Numeral.exponentValue,
      Decimal.digitsValue]

/-! ## Parsing -/

namespace Scope

variable {s : Scope}

theorem numberLeaf_invalid {text refused : String} {p position : Position}
    (h : numberLeaf text p = .error (.invalidNumber refused position)) :
    text = refused ∧ p = position ∧ canonicalize refused = none := by
  obtain ⟨hnone, heq⟩ := numberLeaf_eq_error_iff.1 h
  obtain ⟨rfl, rfl⟩ := ParseError.invalidNumber.inj heq
  exact ⟨rfl, rfl, hnone⟩

/-- a number is refused where it stands, or where a variable of this value is named -/
inductive RefusesNumber (s : Scope) (refused : String) (t : Token) : Prop where
  | literal (hkind : t.kind = .number) (htext : t.text = refused)
  | named {v : Variable} (hkind : t.kind = .ident ∨ t.kind = .param) (hfind : s.find? t.text = some v)
      (hnumber : v.kind = .number) (hvalue : v.value = refused)

theorem RefusesNumber.text_eq {refused : String} {t : Token} (h : s.RefusesNumber refused t) (hkind : t.kind = .number) :
    t.text = refused := by
  cases h with
  | literal _ htext => exact htext
  | named hnamed =>
    rw [hkind] at hnamed
    simp at hnamed

theorem variableLeaf_invalid {t : Token} {refused : String} {position : Position}
    (hkind : t.kind = .ident ∨ t.kind = .param) (h : s.variableLeaf t = .error (.invalidNumber refused position)) :
    t.position = position ∧ canonicalize refused = none ∧ s.RefusesNumber refused t := by
  unfold variableLeaf at h
  split at h
  · cases h
  · rename_i v hv
    split at h
    · rename_i hnumber
      obtain ⟨hvalue, hposition, hnone⟩ := numberLeaf_invalid h
      exact ⟨hposition, hnone, .named hkind hv hnumber hvalue⟩
    · cases h

theorem tokenNode_invalid {t : Token} {refused : String} {position : Position}
    (h : s.tokenNode t = .error (.invalidNumber refused position)) :
    t.position = position ∧ canonicalize refused = none ∧ s.RefusesNumber refused t := by
  unfold tokenNode at h
  split at h
  · rename_i hkind
    split_ifs at h
    · cases h
    · exact variableLeaf_invalid (.inl hkind) h
  · rename_i hkind
    exact variableLeaf_invalid (.inr hkind) h
  · rename_i hkind
    obtain ⟨htext, hposition, hnone⟩ := numberLeaf_invalid h
    exact ⟨hposition, hnone, .literal hkind htext⟩
  · cases h
  · cases h
  · cases h

/-- a single token that stands for nothing fails as it does by itself -/
theorem parse_single_error {t : Token} {e : ParseError} (hplain : t.isPunctuation = false) (h : s.tokenNode t = .error e) :
    s.parse [t] = .error e := by
  simp only [Token.isPunctuation, Bool.or_eq_false_iff] at hplain
  obtain ⟨⟨ho, hc⟩, hcomma⟩ := hplain
  have hentries : (s.entries 0 (Outline.of [t]).items).outcome = .error e := by
    rw [Outline.of_single ho hc (by simp), entries, if_neg (by simp [hcomma]), Traced.outcome_bind,
      Traced.outcome_ofExcept, h]
    rfl
  rw [parse, trace, Traced.outcome_bind, Traced.outcome_report]
  change ((s.entries 0 (Outline.of [t]).items) >>= _).outcome = _
  rw [Traced.outcome_bind, hentries]
  rfl

theorem tree_of_tokenize {formula : String} {ts : List Token} (h : tokenize formula = .ok ts) :
    s.tree formula = (s.parse ts).mapError Error.parse := by
  rw [tree, traceTree, Traced.outcome_bind, Traced.outcome_mapError, Traced.outcome_ofExcept, h]
  rfl

/-- an invalid number is that of a token -/
theorem parse_invalid {ts : List Token} {refused : String} {position : Position}
    (h : s.parse ts = .error (.invalidNumber refused position)) :
    ∃ t ∈ ts, t.position = position ∧ canonicalize refused = none ∧ s.RefusesNumber refused t := by
  rcases parse_error rfl h with hfails | ⟨_, _, _, _, _, _, _, _, heq⟩
  · obtain ⟨t, ht, hnode⟩ := hfails.exists_token (by simp)
    exact ⟨t, ht, tokenNode_invalid hnode⟩
  · cases heq

end Scope

/-- the only invalid number of a literal is the literal -/
theorem Scope.tree_literal_iff (s : Scope) {text : String} (h : tokenize text = .ok [⟨.number, text, .start⟩]) :
    s.tree text = .error (.parse (.invalidNumber text .start)) ↔ canonicalize text = none := by
  rw [tree_of_tokenize h]
  constructor
  · intro herror
    cases hparse : s.parse [⟨.number, text, .start⟩] with
    | ok t =>
      rw [hparse] at herror
      cases herror
    | error e =>
      rw [hparse] at herror
      obtain rfl := Error.parse.inj (Except.error.inj herror)
      obtain ⟨t, -, -, hnone, -⟩ := parse_invalid hparse
      exact hnone
  · intro hnone
    have hnode : s.tokenNode ⟨.number, text, .start⟩ = .error (.invalidNumber text .start) := by
      change numberLeaf text .start = .error (.invalidNumber text .start)
      rw [numberLeaf, hnone]
    rw [parse_single_error rfl hnode]
    rfl

/-- **Number literals are refused for their size only.** What the lexer takes for a number is one token and shows one
number; it has no canonical form, and is no formula, iff that number is at least 2^1024 - 2^970 in magnitude. Every number
token of a formula is of this kind. So if a formula has an invalid number, then that is a number token out of range or the
value of a variable. -/
theorem canonicalize_literal :
    (∀ text, Lexer.IsNumeral text.toList →
      tokenize text = .ok [⟨.number, text, .start⟩] ∧ (∃! x, Denotes text x) ∧
        ∀ x, Denotes text x → (canonicalize text = none ↔ 2 ^ 1024 - 2 ^ 970 ≤ |x|) ∧
          ∀ s : Scope, s.tree text = .error (.parse (.invalidNumber text .start)) ↔ 2 ^ 1024 - 2 ^ 970 ≤ |x|) ∧
      ∀ formula ts, tokenize formula = .ok ts →
        (∀ t ∈ ts, t.kind = .number → Lexer.IsNumeral t.text.toList) ∧
        ∀ (s : Scope) text position, s.parse ts = .error (.invalidNumber text position) →
          ∃ t ∈ ts, t.position = position ∧ s.RefusesNumber text t ∧
            (t.kind = .number → t.text = text ∧ ∃ x, Denotes text x ∧ 2 ^ 1024 - 2 ^ 970 ≤ |x|) := by
  constructor
  · intro text hliteral
    have htoken := tokenize_word (Lexer.spells_numeral hliteral)
    obtain ⟨x, hx⟩ := hliteral.exists_denotes
    refine ⟨htoken, ⟨x, hx, fun _ h => denotes_unique h hx⟩, ?_⟩
    intro y hy
    have hsize := canonicalize_eq_none_iff hy
    exact ⟨hsize, fun s => (s.tree_literal_iff htoken).trans hsize⟩
  · intro formula ts htokens
    have hliteral : ∀ t ∈ ts, t.kind = .number → Lexer.IsNumeral t.text.toList := by
      intro t ht hkind
      have hlexeme := lexeme_of_tokenize htokens t ht
      rw [hkind] at hlexeme
      rcases hlexeme with hstring | hnumeral
      · cases hstring
      · exact hnumeral
    refine ⟨hliteral, ?_⟩
    intro s text position h
    obtain ⟨t, ht, hposition, hnone, hrefused⟩ := Scope.parse_invalid h
    refine ⟨t, ht, hposition, hrefused, ?_⟩
    intro hkind
    obtain rfl := hrefused.text_eq hkind
    obtain ⟨x, hx⟩ := (hliteral t ht hkind).exists_denotes
    exact ⟨rfl, x, hx, (canonicalize_eq_none_iff hx).1 hnone⟩

/-- the least whole number that is refused, as a literal -/
def leastRefused : String := String.ofList (Nat.toDigits 10 (2 ^ 1024 - 2 ^ 970))

/-- the literal half way between the largest finite number and 2^1024 is refused, and so is a formula that consists of it -/
theorem canonicalize_literal_least :
    Lexer.IsNumeral leastRefused.toList ∧ Denotes leastRefused (2 ^ 1024 - 2 ^ 970 : ℕ) ∧
      canonicalize leastRefused = none ∧
      Scope.tree {} leastRefused = .error (.parse (.invalidNumber leastRefused .start)) := by
  have hliteral : Lexer.IsNumeral leastRefused.toList := by
    rw [leastRefused, String.toList_ofList]
    exact .unsigned (.whole (isRun_toDigits _))
  have hdenotes : Denotes leastRefused (2 ^ 1024 - 2 ^ 970 : ℕ) := denotes_toDigits _
  have hcast : ∀ a b : ℕ, b ≤ a → ((2 ^ a - 2 ^ b : ℕ) : ℚ) = 2 ^ a - 2 ^ b := by
    intro a b hle
    rw [Nat.cast_sub (Nat.pow_le_pow_right Nat.two_pos hle), Nat.cast_pow, Nat.cast_pow, Nat.cast_ofNat]
  have hrange : (2 : ℚ) ^ 1024 - 2 ^ 970 ≤ |((2 ^ 1024 - 2 ^ 970 : ℕ) : ℚ)| := by
    rw [hcast 1024 970 (by decide)]
    exact le_abs_self _
  obtain ⟨-, -, hrefused⟩ := canonicalize_literal.1 leastRefused hliteral
  obtain ⟨hnone, htree⟩ := hrefused _ hdenotes
  exact ⟨hliteral, hdenotes, hnone.2 hrange, (htree {}).2 hrange⟩

end Formula
