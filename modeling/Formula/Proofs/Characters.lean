/-
Characters from their codes.

`CHR` cuts a number off at the point and looks for a character with the code that is left. The cut is toward zero
(`Binary64.truncate_eq`), so that a fraction above -1 has the code 0. Every character has its code, and the codes that no
character has are told by two gaps: the surrogates, and all beyond the last code (`mem_codepoints`).

On the way the whole number is brought into 64 bits and then into 32. Neither step wraps around: the first goes to the
nearest end of its range, which is no code (`toInt_saturate64`), and the second refuses what does not fit
(`narrow32?_eq_some_iff`). So the two and the look-up together find the character of a code and nothing else
(`charOfCode?_saturate64`).

In a formula, a code is written with its digits. Whole numbers of up to 53 bits go through reading, canonical text and
reading again without a change (`readNumber?_digits`, `readNumber?_canonical`), so a formula can name every character.

`eval_chr`: `CHR` has a value exactly for the codes of characters, and it is that character.
-/
import Mathlib.Tactic
import Formula.Proofs.Overflow

namespace Formula

/-! ## Whole parts -/

/-- the whole part of a number, toward zero -/
def wholePart (x : ℚ) : ℤ := if 0 ≤ x then ⌊x⌋ else ⌈x⌉

theorem wholePart_of_nonneg {x : ℚ} (h : 0 ≤ x) : wholePart x = ⌊x⌋ := if_pos h

theorem wholePart_neg_of_nonneg {x : ℚ} (h : 0 ≤ x) : wholePart (-x) = -⌊x⌋ := by
  rcases h.eq_or_lt with rfl | hpos
  · simp [wholePart]
  · have hneg : ¬0 ≤ -x := not_le.2 (neg_lt_zero.2 hpos)
    rw [wholePart, if_neg hneg, Int.ceil_neg]

namespace Binary64

/-- the exact value of a finite number -/
def value (x : Binary64) : ℚ := signed x.negative (x.units / one)

/-- **Numbers are cut off toward zero** -/
theorem truncate_eq (x : Binary64) : x.truncate = wholePart x.value := by
  have hnonneg : (0 : ℚ) ≤ x.units / one := div_nonneg (Nat.cast_nonneg _) (Nat.cast_nonneg _)
  have hfloor : ⌊(x.units / one : ℚ)⌋ = ((x.units / one : ℕ) : ℤ) := Rat.floor_natCast_div_natCast x.units one
  cases hsign : x.negative with
  | true =>
    simp only [truncate, value, signed, hsign, if_true]
    rw [wholePart_neg_of_nonneg hnonneg, hfloor]
  | false =>
    simp only [truncate, value, signed, hsign, Bool.false_eq_true, if_false]
    rw [wholePart_of_nonneg hnonneg, hfloor]

end Binary64

/-! ## Codes -/

/-- the codes of characters: all up to the last one but for the surrogates -/
def codepoints : Set ℤ := Set.Icc 0 0xD7FF ∪ Set.Icc 0xE000 0x10FFFF

/-- the codes of characters are those that a character has -/
theorem mem_codepoints {k : ℤ} : k ∈ codepoints ↔ ∃ c : Char, (c.toNat : ℤ) = k := by
  simp only [codepoints, Set.mem_union, Set.mem_Icc]
  constructor
  · intro h
    have hvalid : k.toNat.isValidChar := by
      unfold Nat.isValidChar
      omega
    have hcode : (Char.ofNatAux k.toNat hvalid).toNat = k.toNat := rfl
    refine ⟨Char.ofNatAux k.toNat hvalid, ?_⟩
    rw [hcode]
    omega
  · intro h
    obtain ⟨c, rfl⟩ := h
    have hvalid : c.toNat.isValidChar := c.valid
    unfold Nat.isValidChar at hvalid
    omega

namespace Builtin

/-- beyond 64 bits, the nearest end counts -/
theorem toInt_saturate64 (k : ℤ) : (saturate64 k).toInt = max (-2 ^ 63) (min k (2 ^ 63 - 1)) := by
  have hleast : Int64.minValue.toInt = -2 ^ 63 := by decide
  have hgreatest : Int64.maxValue.toInt = 2 ^ 63 - 1 := by decide
  rw [saturate64, hleast, hgreatest]
  exact Int64.toInt_ofInt_of_le (by omega) (by omega)

/-- what is brought into 32 bits is the same number -/
theorem narrow32?_eq_some_iff {n : Int64} {code : UInt32} : narrow32? n = some code ↔ (code.toNat : ℤ) = n.toInt := by
  have hsize : (UInt32.size : ℤ) = 2 ^ 32 := by decide
  have hcode : code.toNat < 2 ^ 32 := code.toNat_lt
  unfold narrow32?
  constructor
  · intro h
    split_ifs at h with hfits
    have hkept : (UInt32.ofNat n.toInt.toNat).toNat = n.toInt.toNat := UInt32.toNat_ofNat_of_lt' (by omega)
    rw [← Option.some.inj h, hkept]
    omega
  · intro h
    rw [if_pos (by omega), ← h, Int.toNat_natCast, UInt32.ofNat_toNat]

theorem charOfWord?_eq_some_iff {code : UInt32} {c : Char} : charOfWord? code = some c ↔ c.val = code := by
  unfold charOfWord?
  constructor
  · intro h
    split_ifs at h
    rw [← Option.some.inj h]
  · rintro rfl
    rw [dif_pos c.valid]

/-- **No step wraps around**: the character that is found for a whole number is the one with this code -/
theorem charOfCode?_saturate64 {k : ℤ} {c : Char} : charOfCode? (saturate64 k) = some c ↔ (c.toNat : ℤ) = k := by
  have hvalid : c.toNat.isValidChar := c.valid
  have hcode : c.val.toNat = c.toNat := rfl
  unfold Nat.isValidChar at hvalid
  simp only [charOfCode?, Option.bind_eq_some_iff, narrow32?_eq_some_iff, charOfWord?_eq_some_iff, toInt_saturate64]
  constructor
  · rintro ⟨code, hnarrow, rfl⟩
    omega
  · intro h
    exact ⟨c.val, by omega, rfl⟩

theorem charOfCode?_saturate64_eq_none {k : ℤ} (h : k ∉ codepoints) : charOfCode? (saturate64 k) = none := by
  by_contra hne
  obtain ⟨c, hc⟩ := Option.ne_none_iff_exists'.1 hne
  exact h (mem_codepoints.2 ⟨c, charOfCode?_saturate64.1 hc⟩)

/-- `CHR` on a value that is not null and can be read as a number -/
theorem chr_leaf {kind : LeafKind} (hkind : kind ≠ .null) {text : String} {x : Binary64} (h : readNumber? text = some x) :
    chr [.leaf kind text] =
      match charOfCode? (saturate64 x.truncate) with
      | some c => .ok (.string (String.singleton c))
      | none => .error (.invalidCodepoint "CHR" (saturate64 x.truncate).toInt) := by
  have hnull : (Node.leaf kind text).isNull = false := by simp [hkind]
  have hnumber : number "CHR" (.leaf kind text) = .ok x := by rw [number_leaf, h]
  rw [chr, hnull, if_neg Bool.false_ne_true, hnumber]
  rfl

end Builtin

theorem Evaluator.eval_chr_leaf (limit : Nat) (kind : LeafKind) (text : String) :
    eval ⟨.builtin, limit + 1⟩ (.call "CHR" [.leaf kind text]) = Builtin.chr [.leaf kind text] := by
  have hget : Registry.builtin.get? "CHR" = some Builtin.chr := rfl
  rw [eval, trace, node_registered (by decide +kernel) hget, if_neg (by simp), arguments_single, node_ofKind]
  rfl

/-! ## Whole numbers -/

theorem roundHalfEven_mul {q d : Nat} (hd : 0 < d) : roundHalfEven (q * d) d = q :=
  roundHalfEven_eq (by omega) (by omega)

namespace Binary64

/-- a magnitude of at most 53 significant bits is read as it is -/
theorem nearest_mul {v d : Nat} (hv : Representable v) (hd : 0 < d) : nearest (v * d) d = v := by
  have hquotient : v * d / d = v := Nat.mul_div_left v hd
  have hspacing : 0 < d * 2 ^ surplus v := Nat.mul_pos hd (Nat.two_pow_pos _)
  apply nearest_eq_of_dvd
  · rw [hquotient]
    exact hv
  · rw [hquotient]
    omega
  · rw [hquotient]
    omega

theorem one_pos : 0 < one := twoPow_pos 1074

/-- a whole number that is not negative -/
def ofNat (n : Nat) : Binary64 := ⟨false, n * one⟩

theorem truncate_ofNat (n : Nat) : (ofNat n).truncate = n := by
  have hwhole : n * one / one = n := Nat.mul_div_left n one_pos
  simp [truncate, ofNat, hwhole]

/-- the canonical text of a whole number counts millionths -/
theorem toList_canonical_ofNat (n : Nat) : (ofNat n).canonical.toList = signText false ++ fixedPoint (n * 10 ^ 6) := by
  have hunits : (ofNat n).units = n * one := rfl
  have hsign : (ofNat n).negative = false := rfl
  have hround : roundHalfEven (n * one * 10 ^ 6) one = n * 10 ^ 6 := by
    rw [Nat.mul_right_comm, roundHalfEven_mul one_pos]
  rw [toList_canonical, hunits, hsign, hround]

variable {n : Nat}

theorem representable_ofNat (h : n ≤ 2 ^ 53) : Representable (n * one) := by
  have hone : one = 2 ^ 1074 := twoPow_eq 1074
  rw [hone]
  exact representable_mul_two_pow h

theorem mul_twoPow_le (h : n ≤ 2 ^ 53) (e : Nat) : n * twoPow e ≤ 2 ^ (53 + e) := by
  rw [twoPow_eq, Nat.pow_add]
  exact Nat.mul_le_mul_right _ h

theorem ofNat_lt_bound (h : n ≤ 2 ^ 53) : n * one < bound := by
  have hle : n * one ≤ 2 ^ (53 + 1074) := mul_twoPow_le h 1074
  exact hle.trans_lt (two_pow_lt_twoPow (by decide : 53 + 1074 < 2098))

/-- a decimal that shows a whole number of up to 53 bits is read as this number -/
theorem toBinary64?_ofNat (h : n ≤ 2 ^ 53) (places : Nat) :
    Decimal.toBinary64? ⟨false, n * 10 ^ places, -(places : ℤ)⟩ = some (ofNat n) := by
  have hregroup : n * 10 ^ places * one = n * one * 10 ^ places := by ring
  have hunits : Decimal.units (n * 10 ^ places) (-(places : ℤ)) = n * one := by
    rw [Decimal.units_neg, hregroup, nearest_mul (representable_ofNat h) (Nat.pow_pos (by decide))]
  rw [Decimal.toBinary64?, ofUnits?, hunits, if_pos (ofNat_lt_bound h)]
  rfl

end Binary64

section WholeNumbers

variable {n : Nat} (h : n ≤ 2 ^ 53)

include h

theorem readNumber?_digits : readNumber? (String.ofList (Nat.toDigits 10 n)) = some (.ofNat n) := by
  have hdecimal : Decimal.ofChars? (Nat.toDigits 10 n) = some ⟨false, n * 10 ^ 0, -((0 : ℕ) : ℤ)⟩ := by
    have hfraction : ∀ c ∈ (none : Option (List Char)).getD [], c.isDigit = true := by simp
    refine Decimal.ofChars?_eq_some_iff.2 ⟨.plain false (isRun_toDigits n) hfraction, ?_, ?_⟩
    · rw [Numeral.chars_plain]
      exact List.append_nil _
    · simp [Numeral.decimal, Numeral.plain, Numeral.Sign.isMinus, Numeral.fraction, Numeral.exponentValue,
        Decimal.digitsValue_toDigits]
  rw [readNumber?, String.toList_ofList, hdecimal, Option.bind_some, Binary64.toBinary64?_ofNat h]

theorem readNumber?_canonical : readNumber? (Binary64.ofNat n).canonical = some (.ofNat n) := by
  rw [readNumber?, Binary64.toList_canonical_ofNat, ofChars?_signed_fixedPoint, Option.bind_some]
  exact Binary64.toBinary64?_ofNat h 6

theorem canonicalize_digits :
    canonicalize (String.ofList (Nat.toDigits 10 n)) = some (Binary64.ofNat n).canonical := by
  rw [canonicalize, readNumber?_digits h, Option.map_some]

end WholeNumbers

/-! ## Formulas -/

namespace Lexer

theorem front?_chr (rest : List Char) : front? ('C' :: 'H' :: 'R' :: '(' :: rest) = some (.token .ident, 3) := by
  rw [front?]
  rfl

/-- symbols of one character that nothing longer starts with -/
theorem front?_symbol {c : Char} (h : c ∈ ['(', ')', '+', '*', '%', '=', ',']) (rest : List Char) :
    front? (c :: rest) = some (.token .operator, 1) := by
  rw [front?]
  fin_cases h <;> rfl

/-- a parenthesis ends a number -/
theorem front?_digits {digits : List Char} (h : IsRun Char.isDigit digits) (rest : List Char) :
    front? (digits ++ ')' :: rest) = some (.token .number, digits.length) := by
  have hlength : ∀ p : Char → Bool, p ')' = false → (∀ c ∈ digits, p c = true) →
      runLength p (digits ++ ')' :: rest) = digits.length := by
    intro p hcloser hall
    rw [runLength_append_of_all hall, runLength_of_head hcloser, Nat.add_zero]
  have hword : ∀ c ∈ digits, isWordChar c = true := by
    intro c hc
    simp [isWordChar, Char.isAlphanum, h.all c hc]
  have hminus : ∀ more, digits ++ ')' :: rest ≠ '-' :: more := by
    intro more heq
    obtain ⟨c, cs, rfl⟩ := List.exists_cons_of_ne_nil h.ne_nil
    exact ne_of_isDigit (h.all c List.mem_cons_self) rfl (List.cons.inj heq).1
  have hnumber : numberWidth (digits ++ ')' :: rest) = digits.length := by
    have hpos := List.length_pos_iff.2 h.ne_nil
    rw [numberWidth_unsigned hminus, unsignedWidth, hlength Char.isDigit rfl h.all, if_neg hpos.ne', List.drop_left]
    rfl
  exact front?_numeral (.unsigned (.whole h)) hnumber (hlength isWordChar rfl hword).le

end Lexer

open Lexer

/-- the text of a call of `CHR` on digits -/
def chrText (digits : List Char) : List Char := ['C', 'H', 'R', '('] ++ (digits ++ [')'])

/-- the tokens of such a call, each where it stands -/
def chrTokens (digits : List Char) : List Token :=
  [⟨.ident, "CHR", .start⟩, ⟨.operator, "(", ⟨3, 1, 4⟩⟩, ⟨.number, String.ofList digits, ⟨4, 1, 5⟩⟩,
    ⟨.operator, ")", Position.advance ⟨4, 1, 5⟩ digits⟩]

theorem tokenize_chrText {digits : List Char} (h : IsRun Char.isDigit digits) :
    tokenize (String.ofList (chrText digits)) = .ok (chrTokens digits) := by
  have hname : scan 0 .start (['C', 'H', 'R'] ++ ('(' :: (digits ++ [')']))) =
      (scan 0 ⟨3, 1, 4⟩ ('(' :: (digits ++ [')']))).push ⟨.ident, "CHR", .start⟩ :=
    scan_token (by simp) (front?_chr _) _
  have hopener : scan 0 ⟨3, 1, 4⟩ (['('] ++ (digits ++ [')'])) =
      (scan 0 ⟨4, 1, 5⟩ (digits ++ [')'])).push ⟨.operator, "(", ⟨3, 1, 4⟩⟩ :=
    scan_token (by simp) (front?_symbol (by decide) _) _
  have hnumber := scan_token h.ne_nil (front?_digits h []) ⟨4, 1, 5⟩
  have hcloser : ∀ p : Position, scan 0 p ([')'] ++ []) = (scan 0 (p.advance [')']) []).push ⟨.operator, ")", p⟩ :=
    scan_token (by simp) (front?_symbol (by decide) _)
  rw [tokenize_eq_ok_iff, TokenStream.ofText, String.toList_ofList]
  calc scan 0 .start (chrText digits)
      = (scan 0 ⟨3, 1, 4⟩ (['('] ++ (digits ++ [')']))).push ⟨.ident, "CHR", .start⟩ := hname
    _ = ⟨chrTokens digits, none⟩ := by
      rw [hopener, hnumber, ← List.append_nil [')'], hcloser]
      rfl

/-- a call of `CHR` on the digits of a whole number is read as this number -/
theorem Scope.tree_chrText {n : Nat} (h : n ≤ 2 ^ 53) (vars : List Variable) (limit : Nat) :
    Scope.tree ⟨vars, limit + 1⟩ (String.ofList (chrText (Nat.toDigits 10 n))) =
      .ok (.call "CHR" [.number (Binary64.ofNat n).canonical]) := by
  have hnode : Scope.tokenNode { vars } ⟨.number, String.ofList (Nat.toDigits 10 n), ⟨4, 1, 5⟩⟩ =
      .ok (.number (Binary64.ofNat n).canonical) := by
    rw [Scope.tokenNode, Scope.numberLeaf, canonicalize_digits h]
  have hargument : Derives vars limit [⟨.number, String.ofList (Nat.toDigits 10 n), ⟨4, 1, 5⟩⟩]
      [.number (Binary64.ofNat n).canonical] := .token rfl hnode (.nil limit)
  have hfolds : Folds precedence [Node.number (Binary64.ofNat n).canonical] [.number (Binary64.ofNat n).canonical] :=
    (Node.isOperand_leaf _ _).folds
  have hcall : Derives vars (limit + 1) (chrTokens (Nat.toDigits 10 n))
      [.call "CHR" [.number (Binary64.ofNat n).canonical]] :=
    .call (by decide) rfl rfl hargument hfolds (.nil _)
  have hlevels : (Node.call "CHR" [.number (Binary64.ofNat n).canonical]).levels ≤ limit + 1 := by
    have hmost : Node.mostLevels [.number (Binary64.ofNat n).canonical] ≤ limit := by
      rw [Node.mostLevels_le_iff]
      intro m hm
      rw [List.mem_singleton.1 hm, Node.number, Node.levels_leaf]
      exact Nat.zero_le _
    rw [Node.levels_call]
    omega
  exact Scope.tree_eq_ok_iff.2 ⟨_, tokenize_chrText (isRun_toDigits n),
    parse_eq_ok_iff.2 ⟨hlevels, _, hcall, (Node.isOperand_call _ _).folds⟩⟩

theorem Scope.evaluate_chrText (vars : List Variable) (limit : Nat) (c : Char) :
    Scope.evaluate ⟨vars, limit + 1⟩ (String.ofList (chrText (Nat.toDigits 10 c.toNat))) = .ok (String.singleton c) := by
  have hcode : c.toNat ≤ 2 ^ 53 := by
    have hvalid : c.toNat.isValidChar := c.valid
    unfold Nat.isValidChar at hvalid
    omega
  have hchar : Builtin.charOfCode? (Builtin.saturate64 (Binary64.ofNat c.toNat).truncate) = some c :=
    Builtin.charOfCode?_saturate64.2 (Binary64.truncate_ofNat c.toNat).symm
  have hvalue : Evaluator.eval ⟨.builtin, limit + 1⟩ (.call "CHR" [.number (Binary64.ofNat c.toNat).canonical]) =
      .ok (.string (String.singleton c)) := by
    rw [Node.number, Evaluator.eval_chr_leaf, Builtin.chr_leaf (by decide) (readNumber?_canonical hcode), hchar]
  have htext : Evaluator.evalText ⟨.builtin, limit + 1⟩ (.call "CHR" [.number (Binary64.ofNat c.toNat).canonical]) =
      .ok (String.singleton c) := by
    rw [Evaluator.evalText, Evaluator.traceText, Traced.outcome_bind_eq_ok]
    exact ⟨_, hvalue, Evaluator.text_leaf .string _⟩
  rw [Scope.evaluate_of_tree (Scope.tree_chrText hcode vars limit), htext]
  rfl

/-- **`CHR` gives the character with the code.** On a value that is not null and can be read as a number, it has a value iff
the whole part of the number is the code of a character, and this is the string of that character; else the error shows
the whole part, or the nearest number of 64 bits with a sign. A formula names any character by its code in decimal. -/
theorem eval_chr (limit : Nat) :
    (∀ kind text x, kind ≠ .null → readNumber? text = some x →
      ((∃ v, Evaluator.eval ⟨.builtin, limit + 1⟩ (.call "CHR" [.leaf kind text]) = .ok v) ↔
        wholePart x.value ∈ codepoints) ∧
      (∀ v, Evaluator.eval ⟨.builtin, limit + 1⟩ (.call "CHR" [.leaf kind text]) = .ok v →
        ∃ c : Char, (c.toNat : ℤ) = wholePart x.value ∧ v = .string (String.singleton c)) ∧
      (wholePart x.value ∉ codepoints →
        Evaluator.eval ⟨.builtin, limit + 1⟩ (.call "CHR" [.leaf kind text]) =
          .error (.invalidCodepoint "CHR" (max (-2 ^ 63) (min (wholePart x.value) (2 ^ 63 - 1)))))) ∧
      ∀ vars (c : Char),
        Scope.evaluate ⟨vars, limit + 1⟩ ("CHR(" ++ toString c.toNat ++ ")") = .ok (String.singleton c) := by
  constructor
  · intro kind text x hkind hread
    have heval := Evaluator.eval_chr_leaf limit kind text
    rw [Builtin.chr_leaf hkind hread, x.truncate_eq] at heval
    by_cases hcode : wholePart x.value ∈ codepoints
    · obtain ⟨c, hc⟩ := mem_codepoints.1 hcode
      rw [Builtin.charOfCode?_saturate64.2 hc] at heval
      refine ⟨iff_of_true ⟨_, heval⟩ hcode, ?_, fun hnot => absurd hcode hnot⟩
      intro v hv
      exact ⟨c, hc, Except.ok.inj (hv.symm.trans heval)⟩
    · rw [Builtin.charOfCode?_saturate64_eq_none hcode, Builtin.toInt_saturate64] at heval
      have hnone : ∀ v, Evaluator.eval ⟨.builtin, limit + 1⟩ (.call "CHR" [.leaf kind text]) ≠ .ok v := by
        intro v hv
        rw [heval] at hv
        cases hv
      exact ⟨iff_of_false (not_exists.2 hnone) hcode, fun v hv => absurd hv (hnone v), fun _ => heval⟩
  · intro vars c
    have htext : "CHR(" ++ toString c.toNat ++ ")" = String.ofList (chrText (Nat.toDigits 10 c.toNat)) := by
      rw [← String.toList_inj, String.toList_ofList, chrText, ← Nat.toList_repr]
      simp only [String.toList_append, Nat.toString_eq_repr, List.append_assoc]
      rfl
    rw [htext]
    exact Scope.evaluate_chrText vars limit c

/-- a fraction above -1, the first surrogate, and a number beyond 64 bits -/
theorem eval_chr_gaps :
    readNumber? "-0.5" = some ⟨true, twoPow 1073⟩ ∧ wholePart (Binary64.value ⟨true, twoPow 1073⟩) = 0 ∧
      Evaluator.eval ⟨.builtin, 1⟩ (.call "CHR" [.leaf .string "-0.5"]) = .ok (.string "\x00") ∧
      readNumber? "55296" = some (.ofNat 55296) ∧
      Evaluator.eval ⟨.builtin, 1⟩ (.call "CHR" [.leaf .number "55296"]) = .error (.invalidCodepoint "CHR" 55296) ∧
      readNumber? "-1e19" = some ⟨true, 10 ^ 19 * Binary64.one⟩ ∧
      Evaluator.eval ⟨.builtin, 1⟩ (.call "CHR" [.leaf .string "-1e19"]) =
        .error (.invalidCodepoint "CHR" (-9223372036854775808)) ∧
      Scope.evaluate ⟨[], 1⟩ "CHR(128512)" = .ok "😀" := by
  have hfraction : readNumber? "-0.5" = some ⟨true, twoPow 1073⟩ := by decide +kernel
  have hsurrogate : readNumber? "55296" = some (.ofNat 55296) := by decide +kernel
  have hlarge : readNumber? "-1e19" = some ⟨true, 10 ^ 19 * Binary64.one⟩ := by decide +kernel
  have hzero : wholePart (Binary64.value ⟨true, twoPow 1073⟩) = 0 := by
    rw [← Binary64.truncate_eq]
    decide +kernel
  have hfirst : wholePart (Binary64.ofNat 55296).value = 55296 := by
    rw [← Binary64.truncate_eq, Binary64.truncate_ofNat]
    rfl
  have hbeyond : wholePart (Binary64.value ⟨true, 10 ^ 19 * Binary64.one⟩) = -10 ^ 19 := by
    rw [← Binary64.truncate_eq]
    decide +kernel
  obtain ⟨hvalues, hformulas⟩ := eval_chr 0
  obtain ⟨hsome, hchar, -⟩ := hvalues .string "-0.5" _ (by decide) hfraction
  obtain ⟨-, -, hgap⟩ := hvalues .number "55296" _ (by decide) hsurrogate
  obtain ⟨-, -, hout⟩ := hvalues .string "-1e19" _ (by decide) hlarge
  rw [hzero] at hsome hchar
  rw [hfirst] at hgap
  rw [hbeyond] at hout
  obtain ⟨v, hv⟩ := hsome.2 (by simp [codepoints])
  obtain ⟨c, hc, rfl⟩ := hchar v hv
  obtain rfl : c = '\x00' := Char.toNat_inj.1 (Int.ofNat_inj.1 hc)
  refine ⟨hfraction, hzero, hv, hsurrogate, hgap (by simp [codepoints]), hlarge, hout (by simp [codepoints]), ?_⟩
  exact hformulas [] '😀'

end Formula
