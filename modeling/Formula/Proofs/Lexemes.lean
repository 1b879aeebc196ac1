/-
What the lexical rules match.

Every rule has a language, and its width is that of the longest word of the language at the front of the text
(`Measures`, `measures_rules`). So the front of a text is a word of the language that goes with its reading
(`exists_lexeme`), and a word that was chosen as the longest match stays so when the text is cut off behind it
(`front?_cut`).
-/
import Mathlib.Tactic
import Mathlib.Data.List.TakeWhile
import Formula.Proofs.Spacing
import Formula.Proofs.TokenClasses

namespace Formula

namespace Lexer

/-! ## Languages -/

/-- at least one character, all of a class -/
structure IsRun (p : Char → Bool) (w : List Char) : Prop where
  ne_nil : w ≠ []
  all : ∀ c ∈ w, p c = true

/-- one or more `$`, then a name -/
inductive IsParam : List Char → Prop where
  | intro {marks name : List Char} (hmarks : IsRun (· == '$') marks) (hname : IsRun isParamChar name) :
      IsParam (marks ++ name)

/-- a point and digits -/
inductive IsFraction : List Char → Prop where
  | intro {digits : List Char} (h : IsRun Char.isDigit digits) : IsFraction ('.' :: digits)

/-- digits, perhaps with a fraction -/
inductive IsUnsigned : List Char → Prop where
  | whole {digits : List Char} (h : IsRun Char.isDigit digits) : IsUnsigned digits
  | fraction {digits fraction : List Char} (h : IsRun Char.isDigit digits) (hf : IsFraction fraction) :
      IsUnsigned (digits ++ fraction)

/-- an unsigned number, perhaps with a minus sign -/
inductive IsNumeral : List Char → Prop where
  | unsigned {w : List Char} (h : IsUnsigned w) : IsNumeral w
  | negative {w : List Char} (h : IsUnsigned w) : IsNumeral ('-' :: w)

/-- what opens a comment -/
def commentMarks : List (List Char) := [['-', '-'], ['/', '/']]

/-- a comment: a mark, a line without newlines, and its newline unless the text ends before it -/
inductive IsComment : List Char → Prop where
  | closed {mark line : List Char} (hmark : mark ∈ commentMarks) (hline : '\n' ∉ line) :
      IsComment (mark ++ (line ++ ['\n']))
  | last {mark line : List Char} (hmark : mark ∈ commentMarks) (hline : '\n' ∉ line) : IsComment (mark ++ line)

/-- the words that a rule with this reading may match -/
def Lexeme : Reading → List Char → Prop
  | .token .operator, w => String.ofList w ∈ symbols
  | .token .keyword, w => String.ofList w ∈ reservedWords
  | .token .param, w => IsParam w
  | .token .number, w => IsNumeral w
  | .token .ident, w => IsRun isWordChar w
  | .token .string, _ => False
  | .blank, w => IsComment w ∨ IsRun isBlank w
  | .openQuote, w => w = [quoteMark]

/-! ## Widths -/

/-- `width` is that of the longest word of `L` at the front of a text, and 0 if there is none -/
structure Measures (L : List Char → Prop) (width : List Char → Nat) : Prop where
  found : ∀ cs, 0 < width cs → ∃ w rest, cs = w ++ rest ∧ L w ∧ w.length = width cs
  longest : ∀ w rest, L w → w.length ≤ width (w ++ rest)

namespace Measures

variable {L : List Char → Prop} {width : List Char → Nat}

/-- more text gives no shorter match -/
theorem mono (h : Measures L width) (w rest : List Char) : width w ≤ width (w ++ rest) := by
  by_cases hpos : 0 < width w
  · obtain ⟨v, more, rfl, hv, hlength⟩ := h.found w hpos
    rw [← hlength, List.append_assoc]
    exact h.longest v (more ++ rest) hv
  · omega

theorem le_length (h : Measures L width) (cs : List Char) : width cs ≤ cs.length := by
  by_cases hpos : 0 < width cs
  · obtain ⟨w, rest, rfl, -, hlength⟩ := h.found cs hpos
    rw [List.length_append]
    omega
  · omega

/-- a word of the language is matched as a whole -/
theorem eq_length (h : Measures L width) {w : List Char} (hw : L w) : width w = w.length := by
  have hle := h.longest w [] hw
  rw [List.append_nil] at hle
  exact le_antisymm (h.le_length w) hle

/-- a match stays when the text behind it is cut off anywhere -/
theorem cut (h : Measures L width) {w rest more : List Char} (hw : w ≠ [])
    (hwidth : width (w ++ (rest ++ more)) = w.length) : width (w ++ rest) = w.length := by
  have hpos : 0 < width (w ++ (rest ++ more)) := by
    rw [hwidth]
    exact List.length_pos_iff.2 hw
  obtain ⟨v, tail, heq, hv, hlength⟩ := h.found _ hpos
  obtain rfl : w = v := List.append_inj_left heq (by omega)
  have hle := h.longest w rest hv
  have hge := h.mono (w ++ rest) more
  rw [List.append_assoc] at hge
  omega

end Measures

theorem runLength_append_of_all {p : Char → Bool} {w : List Char} (h : ∀ c ∈ w, p c = true) (rest : List Char) :
    runLength p (w ++ rest) = w.length + runLength p rest := by
  rw [runLength, List.takeWhile_append_of_pos h, List.length_append, runLength]

theorem runLength_of_head {p : Char → Bool} {c : Char} (hc : p c = false) (rest : List Char) :
    runLength p (c :: rest) = 0 := by
  rw [runLength, List.takeWhile_cons, hc, if_neg Bool.false_ne_true, List.length_nil]

/-- the text splits after its run, and what follows does not go on with the class -/
theorem exists_run (p : Char → Bool) (cs : List Char) :
    ∃ w rest, cs = w ++ rest ∧ (∀ c ∈ w, p c = true) ∧ w.length = runLength p cs ∧ runLength p rest = 0 := by
  refine ⟨cs.takeWhile p, cs.dropWhile p, List.takeWhile_append_dropWhile.symm, ?_, rfl, ?_⟩
  · intro c hc
    exact List.mem_takeWhile_imp hc
  · rw [runLength, List.length_eq_zero_iff]
    apply List.takeWhile_eq_nil_iff.2
    intro hpos
    exact List.dropWhile_get_zero_not p cs hpos

theorem measures_runLength (p : Char → Bool) : Measures (IsRun p) (runLength p) := by
  constructor
  · intro cs hpos
    obtain ⟨w, rest, rfl, hall, hlength, -⟩ := exists_run p cs
    refine ⟨w, rest, rfl, ⟨?_, hall⟩, hlength⟩
    exact List.length_pos_iff.1 (by omega)
  · intro w rest hw
    rw [runLength_append_of_all hw.all]
    omega

theorem measures_tableWidth (table : List String) :
    Measures (fun w => String.ofList w ∈ table) (tableWidth table) := by
  constructor
  · intro cs hpos
    obtain ⟨word, hword, ⟨rest, rfl⟩, hlength⟩ := exists_word_of_tableWidth hpos
    refine ⟨word.toList, rest, rfl, ?_, ?_⟩
    · rw [String.ofList_toList]
      exact hword
    · rw [String.length_toList]
      exact hlength
  · intro w rest hw
    have hprefix : (String.ofList w).toList <+: w ++ rest := by
      rw [String.toList_ofList]
      exact List.prefix_append w rest
    have hle := length_le_tableWidth hw hprefix
    rwa [String.length_ofList] at hle

theorem measures_paramWidth : Measures IsParam paramWidth := by
  constructor
  · intro cs hpos
    obtain ⟨marks, rest, rfl, hmarks, hlength, -⟩ := exists_run (· == '$') cs
    obtain ⟨name, rest, rfl, hname, hlength', -⟩ := exists_run isParamChar rest
    have hwidth : paramWidth (marks ++ (name ++ rest)) =
        if marks.length = 0 ∨ name.length = 0 then 0 else marks.length + name.length := by
      rw [paramWidth, ← hlength, List.drop_left, ← hlength']
    rw [hwidth] at hpos ⊢
    split_ifs at hpos ⊢ with hzero
    · omega
    · obtain ⟨hmarks_ne, hname_ne⟩ := not_or.1 hzero
      refine ⟨marks ++ name, rest, by simp, .intro ⟨?_, hmarks⟩ ⟨?_, hname⟩, by simp⟩
      · exact List.length_pos_iff.1 (Nat.pos_of_ne_zero hmarks_ne)
      · exact List.length_pos_iff.1 (Nat.pos_of_ne_zero hname_ne)
  · intro w rest hw
    obtain @⟨marks, name, hmarks, hname⟩ := hw
    -- the name starts with something else than a mark, so the marks end there
    obtain ⟨c, cs, rfl⟩ := List.exists_cons_of_ne_nil hname.ne_nil
    have hc : (c == '$') = false := by
      have hparam := hname.all c List.mem_cons_self
      rw [beq_eq_false_iff_ne]
      rintro rfl
      exact absurd hparam (by decide)
    have hlength : runLength (· == '$') (marks ++ (c :: cs ++ rest)) = marks.length := by
      rw [runLength_append_of_all hmarks.all, List.cons_append, runLength_of_head (p := (· == '$')) hc, Nat.add_zero]
    have hlength' : runLength isParamChar (c :: cs ++ rest) = (c :: cs).length + runLength isParamChar rest :=
      runLength_append_of_all hname.all rest
    have hmarks_ne : marks.length ≠ 0 := fun h => hmarks.ne_nil (List.length_eq_zero_iff.1 h)
    have hname_ne : (c :: cs).length + runLength isParamChar rest ≠ 0 := by simp
    rw [List.append_assoc, paramWidth, hlength, List.drop_left, hlength', if_neg (not_or.2 ⟨hmarks_ne, hname_ne⟩),
      List.length_append]
    omega

theorem measures_fractionWidth : Measures IsFraction fractionWidth := by
  constructor
  · intro cs hpos
    unfold fractionWidth at hpos ⊢
    split at hpos
    · rename_i rest
      obtain ⟨digits, rest, rfl, hdigits, hlength, -⟩ := exists_run Char.isDigit rest
      simp only [← hlength] at hpos ⊢
      split_ifs at hpos ⊢ with hzero
      · omega
      · refine ⟨'.' :: digits, rest, rfl, .intro ⟨?_, hdigits⟩, ?_⟩
        · rintro rfl
          exact hzero rfl
        · rw [List.length_cons]
          omega
    · omega
  · intro w rest hw
    obtain @⟨digits, hdigits⟩ := hw
    have hne : digits.length + runLength Char.isDigit rest ≠ 0 := by
      have hpos := List.length_pos_iff.2 hdigits.ne_nil
      omega
    simp only [List.cons_append, fractionWidth, runLength_append_of_all hdigits.all, if_neg hne, List.length_cons]
    omega

theorem measures_unsignedWidth : Measures IsUnsigned unsignedWidth := by
  constructor
  · intro cs hpos
    obtain ⟨digits, rest, rfl, hdigits, hlength, -⟩ := exists_run Char.isDigit cs
    have hwidth : unsignedWidth (digits ++ rest) =
        if digits.length = 0 then 0 else digits.length + fractionWidth rest := by
      rw [unsignedWidth, ← hlength, List.drop_left]
    rw [hwidth] at hpos ⊢
    split_ifs at hpos ⊢ with hzero
    · omega
    · have hrun : IsRun Char.isDigit digits := ⟨fun h => hzero (List.length_eq_zero_iff.2 h), hdigits⟩
      by_cases hfraction : 0 < fractionWidth rest
      · obtain ⟨fraction, rest, rfl, hf, hlength'⟩ := measures_fractionWidth.found rest hfraction
        exact ⟨digits ++ fraction, rest, by simp, .fraction hrun hf, by rw [List.length_append, hlength']⟩
      · exact ⟨digits, rest, rfl, .whole hrun, by omega⟩
  · intro w rest hw
    cases hw with
    | whole h =>
      have hle := (measures_runLength Char.isDigit).longest w rest h
      have hpos := List.length_pos_iff.2 h.ne_nil
      have hne : runLength Char.isDigit (w ++ rest) ≠ 0 := by omega
      simp only [unsignedWidth, if_neg hne]
      omega
    | @fraction digits fraction h hf =>
      have hle := measures_fractionWidth.longest fraction rest hf
      have hpos := List.length_pos_iff.2 h.ne_nil
      -- the point ends the digits
      have hlength : runLength Char.isDigit (digits ++ (fraction ++ rest)) = digits.length := by
        cases hf
        rw [runLength_append_of_all h.all, List.cons_append, runLength_of_head (by decide), Nat.add_zero]
      rw [List.append_assoc, unsignedWidth, hlength, List.drop_left, if_neg hpos.ne', List.length_append]
      omega

theorem numberWidth_unsigned {cs : List Char} (h : ∀ rest, cs ≠ '-' :: rest) : numberWidth cs = unsignedWidth cs := by
  unfold numberWidth
  split
  · exact absurd rfl (h _)
  · rfl

theorem IsUnsigned.exists_digit {w : List Char} (h : IsUnsigned w) : ∃ c cs, w = c :: cs ∧ c.isDigit = true := by
  cases h with
  | whole h =>
    obtain ⟨c, cs, rfl⟩ := List.exists_cons_of_ne_nil h.ne_nil
    exact ⟨c, cs, rfl, h.all c List.mem_cons_self⟩
  | @fraction digits fraction h hf =>
    obtain ⟨c, cs, rfl⟩ := List.exists_cons_of_ne_nil h.ne_nil
    exact ⟨c, cs ++ fraction, rfl, h.all c List.mem_cons_self⟩

theorem measures_numberWidth : Measures IsNumeral numberWidth := by
  constructor
  · intro cs hpos
    by_cases hminus : ∃ rest, cs = '-' :: rest
    · obtain ⟨rest, rfl⟩ := hminus
      simp only [numberWidth] at hpos ⊢
      split_ifs at hpos ⊢ with hzero
      · omega
      · obtain ⟨w, rest, rfl, hw, hlength⟩ := measures_unsignedWidth.found rest (Nat.pos_of_ne_zero hzero)
        exact ⟨'-' :: w, rest, rfl, .negative hw, by rw [List.length_cons, hlength, Nat.add_comm]⟩
    · rw [numberWidth_unsigned (not_exists.1 hminus)] at hpos ⊢
      obtain ⟨w, rest, rfl, hw, hlength⟩ := measures_unsignedWidth.found cs hpos
      exact ⟨w, rest, rfl, .unsigned hw, hlength⟩
  · intro w rest hw
    cases hw with
    | unsigned h =>
      have hle := measures_unsignedWidth.longest w rest h
      obtain ⟨c, cs, rfl, hc⟩ := h.exists_digit
      rw [numberWidth_unsigned]
      · exact hle
      · rintro more heq
        obtain ⟨rfl, -⟩ := List.cons.inj heq
        exact absurd hc (by decide)
    | @negative w h =>
      have hle := measures_unsignedWidth.longest w rest h
      obtain ⟨c, cs, rfl, -⟩ := h.exists_digit
      rw [List.length_cons] at hle
      simp only [List.cons_append] at hle ⊢
      simp only [numberWidth, List.length_cons]
      rw [if_neg (by omega)]
      omega

/-! ## Comments -/

theorem lineWidth_line {line : List Char} (hline : '\n' ∉ line) (rest : List Char) :
    lineWidth (line ++ '\n' :: rest) = line.length + 1 := by
  have hrun : runLength (· != '\n') (line ++ '\n' :: rest) = line.length := by
    rw [runLength_append_of_all (bne_of_not_mem hline), runLength_of_head (by decide), Nat.add_zero]
  rw [lineWidth, hrun, List.length_append, List.length_cons]
  omega

theorem lineWidth_last {line : List Char} (hline : '\n' ∉ line) : lineWidth line = line.length := by
  have hrun : runLength (· != '\n') line = line.length := by
    rw [runLength, List.takeWhile_eq_self_iff.2 (bne_of_not_mem hline)]
  rw [lineWidth, hrun]
  omega

/-- a text is a line without newline, or goes on after one -/
theorem exists_line (cs : List Char) : ∃ line, '\n' ∉ line ∧ (cs = line ∨ ∃ rest, cs = line ++ '\n' :: rest) := by
  obtain ⟨line, rest, rfl, hall, -, hrest⟩ := exists_run (· != '\n') cs
  have hline : '\n' ∉ line := by
    intro hmem
    exact absurd (hall _ hmem) (by decide)
  refine ⟨line, hline, ?_⟩
  rcases rest with _ | ⟨c, rest⟩
  · exact .inl (List.append_nil line)
  · right
    by_cases hc : c = '\n'
    · exact ⟨rest, by rw [hc]⟩
    · simp [runLength, hc] at hrest

theorem mem_commentMarks {mark : List Char} : mark ∈ commentMarks ↔ mark = ['-', '-'] ∨ mark = ['/', '/'] := by
  simp [commentMarks]

theorem commentWidth_mark {mark : List Char} (hmark : mark ∈ commentMarks) (rest : List Char) :
    commentWidth (mark ++ rest) = 2 + lineWidth rest := by
  rcases mem_commentMarks.1 hmark with rfl | rfl <;> rfl

theorem exists_mark {cs : List Char} (h : 0 < commentWidth cs) : ∃ mark ∈ commentMarks, ∃ rest, cs = mark ++ rest := by
  unfold commentWidth at h
  split at h
  · rename_i rest
    exact ⟨['-', '-'], by decide, rest, rfl⟩
  · rename_i rest
    exact ⟨['/', '/'], by decide, rest, rfl⟩
  · omega

theorem length_mark {mark : List Char} (hmark : mark ∈ commentMarks) : mark.length = 2 := by
  rcases mem_commentMarks.1 hmark with rfl | rfl <;> rfl

theorem IsComment.exists_mark {w : List Char} (h : IsComment w) : ∃ mark ∈ commentMarks, ∃ rest, w = mark ++ rest := by
  cases h with
  | closed hmark _ => exact ⟨_, hmark, _, rfl⟩
  | last hmark _ => exact ⟨_, hmark, _, rfl⟩

theorem measures_commentWidth : Measures IsComment commentWidth := by
  constructor
  · intro cs hpos
    obtain ⟨mark, hmark, rest, rfl⟩ := exists_mark hpos
    rw [commentWidth_mark hmark]
    obtain ⟨line, hline, rfl | ⟨rest, rfl⟩⟩ := exists_line rest
    · refine ⟨mark ++ rest, [], by simp, .last hmark hline, ?_⟩
      rw [List.length_append, length_mark hmark, lineWidth_last hline]
    · refine ⟨mark ++ (line ++ ['\n']), rest, by simp, .closed hmark hline, ?_⟩
      rw [List.length_append, length_mark hmark, lineWidth_line hline]
      simp
  · intro w rest hw
    cases hw with
    | @closed mark line hmark hline =>
      rw [List.append_assoc, commentWidth_mark hmark, List.append_assoc, List.singleton_append, lineWidth_line hline]
      simp [length_mark hmark]
    | @last mark line hmark hline =>
      rw [List.append_assoc, commentWidth_mark hmark, List.length_append, length_mark hmark]
      obtain ⟨line', hline', rfl | ⟨more, rfl⟩⟩ := exists_line rest
      · rw [lineWidth_last (by simp [hline, hline']), List.length_append]
        omega
      · rw [← List.append_assoc, lineWidth_line (by simp [hline, hline']), List.length_append]
        omega

theorem measures_quoteWidth : Measures (· = [quoteMark]) quoteWidth := by
  constructor
  · intro cs hpos
    unfold quoteWidth at hpos ⊢
    split at hpos
    · rename_i c rest
      split_ifs at hpos with hc
      · exact ⟨[quoteMark], rest, by rw [hc, List.singleton_append], rfl, by rw [if_pos hc, List.length_singleton]⟩
      · omega
    · omega
  · rintro w rest rfl
    rw [List.singleton_append, quoteWidth, if_pos rfl, List.length_singleton]

/-- **Every rule finds the longest word of its language** -/
theorem measures_rules {rule : Rule} (h : rule ∈ rules) :
    ∃ L, Measures L rule.width ∧ ∀ w, L w → Lexeme rule.reading w := by
  simp only [rules, List.mem_cons, List.not_mem_nil, or_false] at h
  rcases h with rfl | rfl | rfl | rfl | rfl | rfl | rfl | rfl
  · exact ⟨_, measures_tableWidth symbols, fun _ h => h⟩
  · exact ⟨_, measures_tableWidth reservedWords, fun _ h => h⟩
  · exact ⟨_, measures_commentWidth, fun _ h => .inl h⟩
  · exact ⟨_, measures_paramWidth, fun _ h => h⟩
  · exact ⟨_, measures_quoteWidth, fun _ h => h⟩
  · exact ⟨_, measures_numberWidth, fun _ h => h⟩
  · exact ⟨_, measures_runLength isWordChar, fun _ h => h⟩
  · exact ⟨_, measures_runLength isBlank, fun _ h => .inr h⟩

/-! ## The front of a text -/

/-- what stands at the front of a text is a word of the language that goes with its reading -/
theorem exists_lexeme {cs : List Char} {reading : Reading} {width : Nat} (h : front? cs = some (reading, width)) :
    ∃ w rest, cs = w ++ rest ∧ w ≠ [] ∧ w.length = width ∧ Lexeme reading w := by
  rw [front?] at h
  obtain ⟨hpos, rule, hrule, rfl, rfl⟩ := exists_rule_of_longest h
  obtain ⟨L, hmeasures, hlexeme⟩ := measures_rules hrule
  obtain ⟨w, rest, rfl, hw, hlength⟩ := hmeasures.found cs hpos
  exact ⟨w, rest, rfl, List.length_pos_iff.1 (by omega), hlength, hlexeme w hw⟩

/-- **A lexeme stays one when the text behind it is cut off** -/
theorem front?_cut {w rest more : List Char} {reading : Reading} (hw : w ≠ [])
    (h : front? (w ++ (rest ++ more)) = some (reading, w.length)) : front? (w ++ rest) = some (reading, w.length) := by
  rw [front?] at h ⊢
  obtain ⟨hpos, before, rule, after, hsplit, rfl, hwidth, hbefore, hafter⟩ := exists_split_of_longest h
  have hmono : ∀ r ∈ rules, r.width (w ++ rest) ≤ r.width (w ++ (rest ++ more)) := by
    intro r hr
    obtain ⟨L, hmeasures, -⟩ := measures_rules hr
    rw [← List.append_assoc]
    exact hmeasures.mono (w ++ rest) more
  have hcut : rule.width (w ++ rest) = w.length := by
    obtain ⟨L, hmeasures, -⟩ := measures_rules (show rule ∈ rules by rw [hsplit]; simp)
    exact hmeasures.cut hw hwidth
  rw [hsplit] at hmono ⊢
  rw [← hcut] at hpos hbefore hafter ⊢
  apply longest_eq_some hpos
  · intro r hr
    exact (hmono r (by simp [hr])).trans_lt (hbefore r hr)
  · intro r hr
    exact (hmono r (by simp [hr])).trans (hafter r hr)

/-- a comment wins against the operators that its mark starts with -/
theorem front?_comment {mark : List Char} (hmark : mark ∈ commentMarks) (rest : List Char) :
    front? (mark ++ rest) = some (.blank, 2 + lineWidth rest) := by
  have hcomment := commentWidth_mark hmark rest
  have hbefore : (rules.take 2).all (fun rule => rule.width (mark ++ rest) < 2) = true := by
    rcases mem_commentMarks.1 hmark with rfl | rfl <;> rfl
  have hafter : (rules.drop 3).all (fun rule => rule.width (mark ++ rest) < 2) = true := by
    rcases mem_commentMarks.1 hmark with rfl | rfl <;> rfl
  simp only [List.all_eq_true, decide_eq_true_eq] at hbefore hafter
  have hwins : longest (mark ++ rest) (rules.take 2 ++ ⟨.blank, commentWidth⟩ :: rules.drop 3) =
      some (.blank, commentWidth (mark ++ rest)) := by
    apply longest_eq_some
    · show 0 < commentWidth (mark ++ rest)
      omega
    · intro rule hrule
      have hlt := hbefore rule hrule
      show rule.width (mark ++ rest) < commentWidth (mark ++ rest)
      omega
    · intro rule hrule
      have hlt := hafter rule hrule
      show rule.width (mark ++ rest) ≤ commentWidth (mark ++ rest)
      omega
  rw [front?, ← hcomment]
  exact hwins

end Lexer

open Lexer in
/-- **Every token but a string is a word of the language of its class** -/
theorem lexeme_of_tokenize {text : String} {ts : List Token} (h : tokenize text = .ok ts) :
    ∀ t ∈ ts, t.kind = .string ∨ Lexeme (.token t.kind) t.text.toList := by
  intro t ht
  have hscan : Lexer.scan 0 .start text.toList = ⟨ts, none⟩ := tokenize_eq_ok_iff.1 h
  have hmem : t ∈ (Lexer.scan 0 .start text.toList).tokens := by
    rw [hscan]
    exact ht
  rcases matched_of_mem_scan hmem with hstring | ⟨cs, width, hfront, htext⟩
  · exact .inl hstring
  · obtain ⟨w, rest, rfl, -, rfl, hw⟩ := exists_lexeme hfront
    rw [htext, List.take_left, String.toList_ofList]
    exact .inr hw

end Formula
