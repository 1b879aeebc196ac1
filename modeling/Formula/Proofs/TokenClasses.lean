/-
Which texts the tokens of a class have.

Every token but a string is a match of a lexical rule at the front of what was left of the text (`matched_of_mem_scan`).
The rules for operators and reserved words look their texts up in a table, so a match is a word of that table; and since
the operators are listed first, a word of both tables is an operator.

`classed_of_tokenize`: operators are words of the first table, reserved words are words of the second one and not of
the first.
-/
import Mathlib.Tactic
import Formula.Token.Lexer

namespace Formula

namespace Lexer

/-! ## Tables -/

theorem length_le_tableWidth {table : List String} {word : String} {cs : List Char} (hword : word ∈ table)
    (h : word.toList <+: cs) : word.length ≤ tableWidth table cs := by
  induction table with
  | nil => simp at hword
  | cons other table ih =>
    simp only [tableWidth, List.foldr_cons] at ih ⊢
    rcases List.mem_cons.1 hword with rfl | hword
    · rw [if_pos (List.isPrefixOf_iff_prefix.2 h)]
      exact le_max_left _ _
    · split_ifs
      · exact (ih hword).trans (le_max_right _ _)
      · exact ih hword

/-- a match of a table is one of its words -/
theorem exists_word_of_tableWidth {table : List String} {cs : List Char} (h : 0 < tableWidth table cs) :
    ∃ word ∈ table, word.toList <+: cs ∧ word.length = tableWidth table cs := by
  induction table with
  | nil => simp [tableWidth] at h
  | cons other table ih =>
    have hcons : tableWidth (other :: table) cs =
        if other.toList.isPrefixOf cs then max other.length (tableWidth table cs) else tableWidth table cs := rfl
    rw [hcons] at h ⊢
    by_cases hother : other.toList.isPrefixOf cs = true ∧ tableWidth table cs ≤ other.length
    · rw [if_pos hother.1, max_eq_left hother.2]
      exact ⟨other, List.mem_cons_self, List.isPrefixOf_iff_prefix.1 hother.1, rfl⟩
    · -- the first word does not match, or some later word is longer
      have hrest : (if other.toList.isPrefixOf cs then max other.length (tableWidth table cs) else tableWidth table cs) =
          tableWidth table cs := by
        split_ifs with hprefix
        · exact max_eq_right (by rw [not_and] at hother; exact (not_le.1 (hother hprefix)).le)
        · rfl
      rw [hrest] at h ⊢
      obtain ⟨word, hword, hprefix, hlength⟩ := ih h
      exact ⟨word, List.mem_cons_of_mem _ hword, hprefix, hlength⟩

theorem ofList_take_of_prefix {word : String} {cs : List Char} (h : word.toList <+: cs) :
    String.ofList (cs.take word.length) = word := by
  rw [← String.length_toList, ← List.prefix_iff_eq_take.1 h, String.ofList_toList]

/-! ## Matches -/

theorem width_of_longest_none {cs : List Char} {rules : List Rule} (h : longest cs rules = none) :
    ∀ r ∈ rules, r.width cs = 0 := by
  induction rules with
  | nil => simp
  | cons rule rules ih =>
    rw [longest] at h
    cases hrest : longest cs rules with
    | none =>
      rw [hrest] at h
      split_ifs at h with hzero
      exact List.forall_mem_cons.2 ⟨hzero, ih hrest⟩
    | some best =>
      simp only [hrest] at h
      split_ifs at h

/-- the chosen match is longer than those of the rules listed before and no shorter than those of the rules listed after -/
theorem exists_split_of_longest {cs : List Char} {rules : List Rule} {reading : Reading} {width : Nat}
    (h : longest cs rules = some (reading, width)) :
    0 < width ∧ ∃ before rule after, rules = before ++ rule :: after ∧ rule.reading = reading ∧ rule.width cs = width ∧
      (∀ r ∈ before, r.width cs < width) ∧ ∀ r ∈ after, r.width cs ≤ width := by
  induction rules generalizing reading width with
  | nil => simp [longest] at h
  | cons rule rules ih =>
    rw [longest] at h
    cases hrest : longest cs rules with
    | none =>
      rw [hrest] at h
      split_ifs at h with hzero
      cases h
      refine ⟨Nat.pos_of_ne_zero hzero, [], rule, rules, rfl, rfl, rfl, by simp, ?_⟩
      intro r hr
      rw [width_of_longest_none hrest r hr]
      exact Nat.zero_le _
    | some best =>
      obtain ⟨hpos, before, other, after, rfl, hreading, hwidth, hbefore, hafter⟩ := ih hrest
      simp only [hrest] at h
      split_ifs at h with hle
      · -- the first rule matches as much as the best of the others
        cases h
        refine ⟨by omega, [], rule, before ++ other :: after, rfl, rfl, rfl, by simp, ?_⟩
        intro r hr
        rcases List.mem_append.1 hr with hr | hr
        · exact (hbefore r hr).le.trans hle
        · rcases List.mem_cons.1 hr with rfl | hr
          · omega
          · exact (hafter r hr).trans hle
      · cases h
        refine ⟨hpos, rule :: before, other, after, rfl, hreading, hwidth, ?_, hafter⟩
        exact List.forall_mem_cons.2 ⟨Nat.not_le.1 hle, hbefore⟩

/-- the chosen match is that of a rule -/
theorem exists_rule_of_longest {cs : List Char} {rules : List Rule} {reading : Reading} {width : Nat}
    (h : longest cs rules = some (reading, width)) :
    0 < width ∧ ∃ rule ∈ rules, rule.reading = reading ∧ rule.width cs = width := by
  obtain ⟨hpos, before, rule, after, rfl, hreading, hwidth, -, -⟩ := exists_split_of_longest h
  exact ⟨hpos, rule, by simp, hreading, hwidth⟩

/-- the rules listed before those of the chosen reading give way to a longer match only -/
theorem width_lt_of_longest {cs : List Char} {front back : List Rule} {reading : Reading} {width : Nat}
    (h : longest cs (front ++ back) = some (reading, width)) (hfront : ∀ r ∈ front, r.reading ≠ reading) :
    ∀ r ∈ front, r.width cs < width := by
  obtain ⟨-, before, rule, after, heq, hrule, -, hbefore, -⟩ := exists_split_of_longest h
  intro r hr
  rcases List.append_eq_append_iff.1 heq with ⟨more, rfl, -⟩ | ⟨more, rfl, hmore⟩
  · exact hbefore r (List.mem_append_left more hr)
  · cases more with
    | nil =>
      rw [List.append_nil] at hr
      exact hbefore r hr
    | cons first more =>
      -- the chosen rule would stand among the first ones
      obtain ⟨rfl, -⟩ := List.cons.inj hmore
      exact absurd hrule (hfront rule (by simp))

/-- what is read as an operator is a word of the first table -/
theorem front?_operator {cs : List Char} {width : Nat} (h : front? cs = some (.token .operator, width)) :
    String.ofList (cs.take width) ∈ symbols := by
  rw [front?] at h
  obtain ⟨hpos, rule, hrule, hreading, hwidth⟩ := exists_rule_of_longest h
  simp only [rules, List.mem_cons, List.not_mem_nil, or_false] at hrule
  rcases hrule with rfl | rfl | rfl | rfl | rfl | rfl | rfl | rfl <;> cases hreading
  obtain rfl : tableWidth symbols cs = width := hwidth
  obtain ⟨word, hword, hprefix, hlength⟩ := exists_word_of_tableWidth hpos
  rw [← hlength, ofList_take_of_prefix hprefix]
  exact hword

/-- what is read as a reserved word is a word of the second table only, since the first table gave no match as long -/
theorem front?_keyword {cs : List Char} {width : Nat} (h : front? cs = some (.token .keyword, width)) :
    String.ofList (cs.take width) ∈ reservedWords ∧ String.ofList (cs.take width) ∉ symbols := by
  rw [front?] at h
  obtain ⟨hpos, rule, hrule, hreading, hwidth⟩ := exists_rule_of_longest h
  simp only [rules, List.mem_cons, List.not_mem_nil, or_false] at hrule
  rcases hrule with rfl | rfl | rfl | rfl | rfl | rfl | rfl | rfl <;> cases hreading
  obtain rfl : tableWidth reservedWords cs = width := hwidth
  have hsplit : longest cs (rules.take 1 ++ rules.drop 1) = some (.token .keyword, tableWidth reservedWords cs) := h
  have hlonger : tableWidth symbols cs < tableWidth reservedWords cs :=
    width_lt_of_longest hsplit (by decide) ⟨.token .operator, tableWidth symbols⟩ (by simp [rules])
  obtain ⟨word, hword, hprefix, hlength⟩ := exists_word_of_tableWidth hpos
  rw [← hlength, ofList_take_of_prefix hprefix]
  refine ⟨hword, ?_⟩
  intro hsymbol
  have hle := length_le_tableWidth hsymbol hprefix
  omega

/-! ## Scanned tokens -/

/-- every token but a string was matched at the front of some part of the text -/
theorem matched_of_mem_scan {covered : Nat} {p : Position} {cs : List Char} {t : Token}
    (h : t ∈ (scan covered p cs).tokens) :
    t.kind = .string ∨
      ∃ rest width, front? rest = some (.token t.kind, width) ∧ t.text = String.ofList (rest.take width) := by
  fun_induction scan covered p cs with
  | case1 covered p => simp at h
  | case2 covered p c cs ih => exact ih h
  | case3 p c cs hfront => simp [TokenStream.failure] at h
  | case4 p c cs width hfront ih => exact ih h
  | case5 p c cs kind width hfront ih =>
    rcases List.mem_cons.1 h with rfl | h
    · exact .inr ⟨c :: cs, width, hfront, rfl⟩
    · exact ih h
  | case6 p c cs width hfront body hopen => simp [TokenStream.failure] at h
  | case7 p c cs width hfront body hclosed ih =>
    rcases List.mem_cons.1 h with rfl | h
    · exact .inl rfl
    · exact ih h

end Lexer

open Lexer

namespace Token

/-- operators and reserved words have the texts that the tables list; a word of both tables is an operator -/
structure Classed (t : Token) : Prop where
  operator : t.kind = .operator → t.text ∈ symbols
  keyword : t.kind = .keyword → t.text ∈ reservedWords ∧ t.text ∉ symbols

end Token

theorem tokenize_eq_ok_iff {text : String} {ts : List Token} :
    tokenize text = .ok ts ↔ TokenStream.ofText text = ⟨ts, none⟩ := by
  rcases hstream : TokenStream.ofText text with ⟨tokens, _ | e⟩ <;> simp [tokenize, hstream, TokenStream.toExcept]

theorem tokenize_eq_error_iff {text : String} {e : LexError} :
    tokenize text = .error e ↔ (TokenStream.ofText text).error? = some e := by
  rcases hstream : TokenStream.ofText text with ⟨tokens, _ | e'⟩ <;> simp [tokenize, hstream, TokenStream.toExcept]

/-- **Operators and reserved words come from their tables** -/
theorem classed_of_tokenize {text : String} {ts : List Token} (h : tokenize text = .ok ts) : ∀ t ∈ ts, t.Classed := by
  intro t ht
  have hscan : Lexer.scan 0 .start text.toList = ⟨ts, none⟩ := tokenize_eq_ok_iff.1 h
  have hmem : t ∈ (Lexer.scan 0 .start text.toList).tokens := by
    rw [hscan]
    exact ht
  have hmatched := matched_of_mem_scan hmem
  constructor
  · intro hkind
    rcases hmatched with hstring | ⟨rest, width, hfront, htext⟩
    · rw [hkind] at hstring
      cases hstring
    · rw [htext]
      exact front?_operator (hkind ▸ hfront)
  · intro hkind
    rcases hmatched with hstring | ⟨rest, width, hfront, htext⟩
    · rw [hkind] at hstring
      cases hstring
    · rw [htext]
      exact front?_keyword (hkind ▸ hfront)

end Formula
