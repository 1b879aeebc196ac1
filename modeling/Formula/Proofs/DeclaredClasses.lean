/-
The classes of tokens as they are declared.

A class admits some texts (`TokenKind.Declares`): words of a table, runs of characters, numbers with an optional sign. No
text as a whole is matched by a rule beyond its end, so the first rule that matches all of it reads it (`front?_whole`).
Hence a text that a class admits is read as a token of that class (`spelled_of_declares`), and no two classes admit what
is written alike.

`tokens_declared`: every token that is read from a text, up to an error if there is one, has a text that its class admits,
stands in the text as it is written, and ends where its class ends.
-/
import Mathlib.Tactic
import Formula.Proofs.Positions
import Formula.Proofs.RoundTrip

namespace Formula

open Lexer

/-- the texts that tokens of this class may have -/
def TokenKind.Declares : TokenKind → String → Prop
  | .operator, text => text ∈ symbols
  | .keyword, text => text ∈ reservedWords ∧ text ∉ symbols
  | .param, text => IsParam text.toList
  | .string, text => quoteMark ∉ text.toList
  | .number, text => IsNumeral text.toList
  | .ident, text =>
    IsRun isWordChar text.toList ∧ (∃ c ∈ text.toList, c.isDigit = false) ∧ text ∉ symbols ∧ text ∉ reservedWords

/-! ## What is read is declared -/

namespace Lexer

/-- a word that was chosen as the longest match is a lexeme -/
theorem lexeme_of_front {reading : Reading} {w rest : List Char}
    (h : front? (w ++ rest) = some (reading, w.length)) : Lexeme reading w := by
  obtain ⟨v, more, heq, -, hlength, hv⟩ := exists_lexeme h
  obtain rfl : w = v := List.append_inj_left heq hlength.symm
  exact hv

/-- an identifier ends where the characters of words end -/
theorem stops_of_ident {w rest : List Char} (h : front? (w ++ rest) = some (.token .ident, w.length)) :
    ∀ c ∈ rest.head?, isWordChar c = false := by
  rw [front?] at h
  obtain ⟨-, rule, hrule, hreading, hwidth⟩ := exists_rule_of_longest h
  simp only [rules, List.mem_cons, List.not_mem_nil, or_false] at hrule
  rcases hrule with rfl | rfl | rfl | rfl | rfl | rfl | rfl | rfl <;> cases hreading
  obtain ⟨v, more, heq, -, hlength, hstop⟩ := exists_run isWordChar (w ++ rest)
  obtain ⟨-, rfl⟩ := List.append_inj heq (hwidth.symm.trans hlength.symm)
  intro c hc
  obtain ⟨cs, rfl⟩ := List.head?_eq_some_iff.1 hc
  by_contra hword
  simp [runLength, hword] at hstop

/-- an identifier is longer than what the rules before it match, so it is neither a number nor a word of a table -/
theorem declares_ident {w rest : List Char} (h : front? (w ++ rest) = some (.token .ident, w.length)) :
    TokenKind.Declares .ident (String.ofList w) := by
  have hrun : IsRun isWordChar w := lexeme_of_front h
  have hsplit : longest (w ++ rest) (rules.take 6 ++ rules.drop 6) = some (.token .ident, w.length) := by
    rw [front?] at h
    exact h
  have hshorter : ∀ rule ∈ rules.take 6, rule.width (w ++ rest) < w.length := width_lt_of_longest hsplit (by decide)
  have hnot : ∀ L, ∀ rule ∈ rules.take 6, Measures L rule.width → ¬L w := by
    intro L rule hrule hmeasures hw
    exact absurd (hmeasures.longest w rest hw) (not_le.2 (hshorter rule hrule))
  refine ⟨by rwa [String.toList_ofList], ?_, ?_, ?_⟩
  · by_contra hdigits
    simp only [String.toList_ofList, not_exists, not_and, Bool.not_eq_false] at hdigits
    exact hnot _ ⟨.token .number, numberWidth⟩ (by simp [rules]) measures_numberWidth
      (.unsigned (.whole ⟨hrun.ne_nil, hdigits⟩))
  · exact hnot _ ⟨.token .operator, tableWidth symbols⟩ (by simp [rules]) (measures_tableWidth symbols)
  · exact hnot _ ⟨.token .keyword, tableWidth reservedWords⟩ (by simp [rules]) (measures_tableWidth reservedWords)

/-- **A lexeme has a text that its class declares** -/
theorem declares_of_front {kind : TokenKind} {w rest : List Char}
    (h : front? (w ++ rest) = some (.token kind, w.length)) : kind.Declares (String.ofList w) := by
  have hlexeme := lexeme_of_front h
  cases kind with
  | operator => exact hlexeme
  | keyword =>
    have hkeyword := front?_keyword h
    rwa [List.take_left] at hkeyword
  | param | number =>
    rw [TokenKind.Declares, String.toList_ofList]
    exact hlexeme
  | string => exact hlexeme.elim
  | ident => exact declares_ident h

end Lexer

/-! ## What is declared is read -/

namespace Lexer

/-- a word outside a language is matched in part at most -/
theorem Measures.lt_length {L : List Char → Prop} {width : List Char → Nat} (h : Measures L width) {w : List Char}
    (hw : w ≠ []) (hnot : ¬L w) : width w < w.length := by
  apply lt_of_le_of_ne (h.le_length w)
  intro heq
  obtain ⟨v, more, hsplit, hv, hlength⟩ := h.found w (heq ▸ List.length_pos_iff.2 hw)
  rw [← List.append_nil w] at hsplit
  obtain rfl : w = v := List.append_inj_left hsplit (by omega)
  exact hnot hv

/-- **A word by itself is read by the first rule that matches all of it** -/
theorem front?_whole {w : List Char} {before after : List Rule} {rule : Rule} (hrules : rules = before ++ rule :: after)
    (hw : w ≠ []) (hrule : rule.width w = w.length) (hbefore : ∀ r ∈ before, r.width w < w.length) :
    front? w = some (rule.reading, w.length) := by
  rw [front?, hrules, ← hrule]
  rw [← hrule] at hbefore
  apply longest_eq_some _ hbefore
  · intro r hr
    obtain ⟨L, hmeasures, -⟩ := measures_rules (show r ∈ rules by simp [hrules, hr])
    rw [hrule]
    exact hmeasures.le_length w
  · rw [hrule]
    exact List.length_pos_iff.2 hw

theorem not_isWordChar_of_mark {mark : List Char} (hmark : mark ∈ commentMarks) : ∃ c ∈ mark, isWordChar c = false := by
  rcases mem_commentMarks.1 hmark with rfl | rfl
  · exact ⟨'-', by simp, rfl⟩
  · exact ⟨'/', by simp, rfl⟩

/-- a number with a character that is no digit has one that stands in no word -/
theorem IsNumeral.exists_not_isWordChar {w : List Char} (h : IsNumeral w) (hdigit : ∃ c ∈ w, c.isDigit = false) :
    ∃ c ∈ w, isWordChar c = false := by
  have hunsigned : ∀ v, IsUnsigned v → (∃ c ∈ v, c.isDigit = false) → ∃ c ∈ v, isWordChar c = false := by
    intro v hv hdigit
    cases hv with
    | whole hrun =>
      obtain ⟨c, hc, hno⟩ := hdigit
      rw [hrun.all c hc] at hno
      cases hno
    | fraction _ hf =>
      cases hf
      exact ⟨'.', by simp, rfl⟩
  cases h with
  | unsigned hw => exact hunsigned w hw hdigit
  | negative => exact ⟨'-', by simp, rfl⟩

/-- of the lexemes that a rule before that for identifiers matches, only those of the tables and the whole numbers are made
of the characters of words -/
theorem not_lexeme_of_run {w : List Char} (hrun : IsRun isWordChar w) (hdigit : ∃ c ∈ w, c.isDigit = false)
    (hsymbols : String.ofList w ∉ symbols) (hreserved : String.ofList w ∉ reservedWords) :
    ∀ rule ∈ rules.take 6, ¬Lexeme rule.reading w := by
  have hnone : ¬∃ c ∈ w, isWordChar c = false := by
    rintro ⟨c, hc, hno⟩
    rw [hrun.all c hc] at hno
    cases hno
  intro rule hrule
  simp only [rules, List.take_succ_cons, List.take_zero, List.mem_cons, List.not_mem_nil, or_false] at hrule
  rcases hrule with rfl | rfl | rfl | rfl | rfl | rfl
  · exact hsymbols
  · exact hreserved
  · rintro (hcomment | hblank)
    · obtain ⟨mark, hmark, rest, rfl⟩ := hcomment.exists_mark
      obtain ⟨c, hc, hno⟩ := not_isWordChar_of_mark hmark
      exact hnone ⟨c, List.mem_append_left rest hc, hno⟩
    · obtain ⟨c, cs, rfl⟩ := List.exists_cons_of_ne_nil hblank.ne_nil
      have hwords : Unblanked isWordChar := rfl
      exact hnone ⟨c, List.mem_cons_self, hwords.eq_false (hblank.all c List.mem_cons_self)⟩
  · rintro @⟨marks, name, hmarks, -⟩
    obtain ⟨c, cs, rfl⟩ := List.exists_cons_of_ne_nil hmarks.ne_nil
    have hc : c = '$' := by simpa using hmarks.all c List.mem_cons_self
    exact hnone ⟨c, by simp, by rw [hc]; rfl⟩
  · intro hquote
    obtain rfl : w = [quoteMark] := hquote
    exact hnone ⟨quoteMark, by simp, rfl⟩
  · intro hnumeral
    exact hnone (hnumeral.exists_not_isWordChar hdigit)

theorem spells_ident {text : String} (h : TokenKind.Declares .ident text) : Spells .ident text.toList := by
  obtain ⟨hrun, hdigit, hsymbols, hreserved⟩ := h
  rw [← text.ofList_toList] at hsymbols hreserved
  have hrules : rules = rules.take 6 ++ ⟨.token .ident, runLength isWordChar⟩ :: rules.drop 7 := rfl
  apply Spells.of_front
  apply front?_whole hrules hrun.ne_nil ((measures_runLength isWordChar).eq_length hrun)
  intro rule hrule
  obtain ⟨L, hmeasures, hlexeme⟩ := measures_rules (List.mem_of_mem_take hrule)
  apply hmeasures.lt_length hrun.ne_nil
  intro hw
  exact not_lexeme_of_run hrun hdigit hsymbols hreserved rule hrule (hlexeme _ hw)

theorem spells_param {w : List Char} (h : IsParam w) : Spells .param w := by
  have hwidth := measures_paramWidth.eq_length h
  obtain @⟨marks, name, hmarks, -⟩ := h
  obtain ⟨c, cs, rfl⟩ := List.exists_cons_of_ne_nil hmarks.ne_nil
  obtain rfl : c = '$' := by simpa using hmarks.all c List.mem_cons_self
  have hrules : rules = rules.take 3 ++ ⟨.token .param, paramWidth⟩ :: rules.drop 4 := rfl
  -- the rules before that for parameters match nothing at a `$`
  have hbefore : (rules.take 3).all (fun rule => rule.width ('$' :: (cs ++ name)) = 0) = true := rfl
  simp only [List.all_eq_true, decide_eq_true_eq] at hbefore
  apply Spells.of_front
  apply front?_whole hrules (by simp) hwidth
  intro rule hrule
  rw [List.cons_append, hbefore rule hrule]
  simp

end Lexer

/-- **A token with a text that its class declares is read as that token** -/
theorem spelled_of_declares {t : Token} (h : t.kind.Declares t.text) : t.Spelled := by
  obtain ⟨kind, text, position⟩ := t
  cases kind with
  | operator => exact spells_symbol h
  | keyword => exact spells_reservedWord h.1 h.2
  | param => exact spells_param h
  | string => exact h
  | number => exact spells_numeral h
  | ident => exact spells_ident h

/-- what stands at the front of a written token tells strings from words, and the classes of words apart -/
theorem Token.Spelled.kind_eq {t u : Token} (ht : t.Spelled) (hu : u.Spelled) (h : t.written = u.written) :
    t.kind = u.kind := by
  have hfront : ∀ v : Token, v.Spelled →
      (front? v.written.toList).map Prod.fst = some (if v.kind = .string then .openQuote else .token v.kind) := by
    intro v hv
    by_cases hkind : v.kind = .string
    · rw [toList_written_string hkind, front?_quoteMark, if_pos hkind]
      rfl
    · rw [toList_written_word hkind, (hv.spells hkind).front, if_neg hkind]
      rfl
  have heq := hfront t ht
  rw [h, hfront u hu] at heq
  split_ifs at heq with hukind htkind htkind
  · rw [htkind, hukind]
  · cases heq
  · cases heq
  · exact (Reading.token.inj (Option.some.inj heq)).symm

/-! ## Whole texts -/

/-- a token has a text that its class declares, and the text holds it as it is written, at its offset; behind an identifier
no word goes on -/
structure Token.Fits (text : String) (t : Token) : Prop where
  declared : t.kind.Declares t.text
  stands : ∃ left right, text = left ++ t.written ++ right ∧ t.position.offset = left.utf8ByteSize ∧
    (t.kind = .ident → ∀ c ∈ right.toList.head?, isWordChar c = false)

theorem Position.offset_advance_append {p : Position} {left : String} (hp : p.offset = left.utf8ByteSize) (w : List Char) :
    (p.advance w).offset = (left ++ String.ofList w).utf8ByteSize := by
  rw [offset_advance, hp, String.utf8ByteSize_append]

/-- **Every token of a reading fits its text** -/
theorem Lexer.Reads.fits {p : Position} {cs : List Char} {s : TokenStream} (h : Reads p cs s) {left : String}
    (hp : p.offset = left.utf8ByteSize) : ∀ t ∈ s.tokens, t.Fits (left ++ String.ofList cs) := by
  have hjoin : ∀ (left : String) (w rest : List Char),
      left ++ String.ofList (w ++ rest) = left ++ String.ofList w ++ String.ofList rest := by
    intro left w rest
    rw [String.ofList_append, String.append_assoc]
  induction h generalizing left with
  | done | lastComment => simp
  | @blank p c rest s hc _ ih =>
    have hrest := ih (Position.offset_advance_append hp [c])
    rwa [← hjoin] at hrest
  | @comment p mark line rest s hmark hline _ ih =>
    have hrest := ih (Position.offset_advance_append hp (mark ++ (line ++ ['\n'])))
    rw [← hjoin] at hrest
    simpa using hrest
  | @word p kind w rest s hw hfront _ ih =>
    have hkind : (Token.mk kind (String.ofList w) p).kind ≠ .string := kind_ne_string hfront
    rw [hjoin]
    refine List.forall_mem_cons.2 ⟨⟨declares_of_front hfront, left, String.ofList rest, ?_, hp, ?_⟩,
      ih (Position.offset_advance_append hp w)⟩
    · rw [← String.toList_inj]
      simp [Token.toList_written_word hkind]
    · rintro rfl
      rw [String.toList_ofList]
      exact stops_of_ident hfront
  | @string p body rest s hbody _ ih =>
    have hsplit : quoteMark :: (body ++ quoteMark :: rest) = quoteMark :: (body ++ [quoteMark]) ++ rest := by simp
    rw [hsplit, hjoin]
    refine List.forall_mem_cons.2 ⟨⟨?_, left, String.ofList rest, ?_, hp, nofun⟩,
      ih (Position.offset_advance_append hp (quoteMark :: (body ++ [quoteMark])))⟩
    · rwa [TokenKind.Declares, String.toList_ofList]
    · rw [← String.toList_inj]
      simp [Token.toList_written_string]
  | unterminated | unconsumed => simp [TokenStream.failure]

theorem TokenStream.fits_ofText (text : String) : ∀ t ∈ (ofText text).tokens, t.Fits text := by
  have hfits : ∀ t ∈ (ofText text).tokens, t.Fits ("" ++ String.ofList text.toList) :=
    (reads_scan .start text.toList).fits rfl
  rwa [String.empty_append, String.ofList_toList] at hfits

/-- **Token classes are as declared, and disjoint.** Whatever token is read from a text, also from one that ends in an
error, has a text that its class declares: operators and reserved words come from their tables, a word of both being an
operator; numbers, parameters and identifiers have their forms, and no identifier is a whole number or a word of a table;
no string holds a quote. The token stands at its offset as it is written, and an identifier is not followed by a letter, a
digit or an underscore. No two classes declare what is written alike. -/
theorem tokens_declared (text : String) :
    (∀ n t, (TokenStream.ofText text).answer n = .ok (some t) → t.Fits text) ∧
      (∀ ts, tokenize text = .ok ts → ∀ t ∈ ts, t.Fits text) ∧
      ∀ t u : Token, t.kind.Declares t.text → u.kind.Declares u.text → t.written = u.written → t.kind = u.kind := by
  have hfits := TokenStream.fits_ofText text
  refine ⟨fun n t ht => hfits t (TokenStream.mem_of_answer ht), ?_, ?_⟩
  · intro ts hts
    rw [tokenize_eq_ok_iff.1 hts] at hfits
    exact hfits
  · intro t u ht hu
    exact (spelled_of_declares ht).kind_eq (spelled_of_declares hu)

/-- the tokens of `1.5e12AND NULL$a-'AND'` -/
def gluedTokens : List Token :=
  [⟨.number, "1.5", ⟨0, 1, 1⟩⟩, ⟨.ident, "e12AND", ⟨3, 1, 4⟩⟩, ⟨.keyword, "NULL", ⟨10, 1, 11⟩⟩, ⟨.param, "$a-", ⟨14, 1, 15⟩⟩,
    ⟨.string, "AND", ⟨17, 1, 18⟩⟩]

/-- a number glued to a word that ends like an operator, an operator in quotes in front of a letter that starts no token,
and a reserved word, which no token of another class is written like -/
theorem tokens_declared_glued :
    tokenize "1.5e12AND NULL$a-'AND'" = .ok gluedTokens ∧
      Token.Fits "1.5e12AND NULL$a-'AND'" ⟨.ident, "e12AND", ⟨3, 1, 4⟩⟩ ∧
      (TokenStream.ofText "1.5e12AND NULL$a-'AND'é").answer 4 = .ok (some ⟨.string, "AND", ⟨17, 1, 18⟩⟩) ∧
      Token.Fits "1.5e12AND NULL$a-'AND'é" ⟨.string, "AND", ⟨17, 1, 18⟩⟩ ∧
      TokenKind.Declares .keyword "NULL" ∧
      ∀ u : Token, u.kind.Declares u.text → u.written = "NULL" → u.kind = .keyword := by
  have htokens : tokenize "1.5e12AND NULL$a-'AND'" = .ok gluedTokens := by decide +kernel
  have hanswer : (TokenStream.ofText "1.5e12AND NULL$a-'AND'é").answer 4 = .ok (some ⟨.string, "AND", ⟨17, 1, 18⟩⟩) := by
    decide +kernel
  have hnull : TokenKind.Declares .keyword "NULL" := by
    unfold TokenKind.Declares
    decide +kernel
  obtain ⟨-, hfits, hdisjoint⟩ := tokens_declared "1.5e12AND NULL$a-'AND'"
  obtain ⟨hread, -, -⟩ := tokens_declared "1.5e12AND NULL$a-'AND'é"
  exact ⟨htokens, hfits _ htokens _ (by simp [gluedTokens]), hanswer, hread 4 _ hanswer, hnull,
    fun u hu hwritten => hdisjoint u ⟨.keyword, "NULL", .start⟩ hu hnull hwritten⟩

end Formula
