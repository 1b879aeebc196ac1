/-
How a text is read, lexeme by lexeme.

`Reads p cs s` retells a whole scan with a rule for each thing that can stand at the front of a text: a blank, a comment, a
token, a string, or one of the two errors. It does not say how blanks are taken together. Every scan is such a reading
(`reads_scan`), so what holds of all tokens, gaps and errors is shown by induction on readings.

`tokenize_written`: the tokens of any text, written out with spaces between them, are split into the same tokens again.
-/
import Mathlib.Tactic
import Formula.Proofs.Lexemes

namespace Formula

namespace Lexer

/-! ## Scanning -/

/-- what is read as blank leaves no token -/
theorem scan_skip {w rest : List Char} (hw : w ≠ []) (hfront : front? (w ++ rest) = some (.blank, w.length))
    (p : Position) : scan 0 p (w ++ rest) = scan 0 (p.advance w) rest := by
  obtain ⟨c, w, rfl⟩ := List.exists_cons_of_ne_nil hw
  rw [List.cons_append] at hfront ⊢
  have hcovered : w.length ≤ (w ++ rest).length := by simp
  simp [scan, hfront, scan_covered hcovered]

section Comments

variable {mark line : List Char}

theorem scan_comment (hmark : mark ∈ commentMarks) (hline : '\n' ∉ line) (rest : List Char) (p : Position) :
    scan 0 p (mark ++ (line ++ '\n' :: rest)) = scan 0 (p.advance (mark ++ (line ++ ['\n']))) rest := by
  have hsplit : mark ++ (line ++ '\n' :: rest) = (mark ++ (line ++ ['\n'])) ++ rest := by simp
  have hlength : (mark ++ (line ++ ['\n'])).length = 2 + lineWidth (line ++ '\n' :: rest) := by
    rw [lineWidth_line hline, List.length_append, length_mark hmark, List.length_append, List.length_singleton]
  have hfront := front?_comment hmark (line ++ '\n' :: rest)
  rw [← hlength, hsplit] at hfront
  rw [hsplit]
  exact scan_skip (by simp) hfront p

theorem scan_lastComment (hmark : mark ∈ commentMarks) (hline : '\n' ∉ line) (p : Position) :
    scan 0 p (mark ++ line) = ⟨[], none⟩ := by
  have hlength : (mark ++ line).length = 2 + lineWidth line := by
    rw [lineWidth_last hline, List.length_append, length_mark hmark]
  have hne : mark ++ line ≠ [] := List.length_pos_iff.1 (by omega)
  have hfront : front? (mark ++ line ++ []) = some (.blank, (mark ++ line).length) := by
    rw [List.append_nil, hlength]
    exact front?_comment hmark line
  have hscan := scan_skip hne hfront p
  rwa [List.append_nil] at hscan

end Comments

theorem scan_unterminated {cs : List Char} (h : quoteMark ∉ cs) (p : Position) :
    scan 0 p (quoteMark :: cs) = .failure (.unterminatedString p) := by
  have hbody : cs.takeWhile (· != quoteMark) = cs := List.takeWhile_eq_self_iff.2 (bne_of_not_mem h)
  simp only [scan, front?_quoteMark, hbody, if_true]

/-! ## Readings -/

/-- a text read from position `p` on: what stands at its front, then the rest -/
inductive Reads : Position → List Char → TokenStream → Prop where
  | done (p : Position) : Reads p [] ⟨[], none⟩
  | blank {p : Position} {c : Char} {rest : List Char} {s : TokenStream} (hc : isBlank c = true)
      (h : Reads (p.after c) rest s) : Reads p (c :: rest) s
  | comment {p : Position} {mark line rest : List Char} {s : TokenStream} (hmark : mark ∈ commentMarks)
      (hline : '\n' ∉ line) (h : Reads (p.advance (mark ++ (line ++ ['\n']))) rest s) :
      Reads p (mark ++ (line ++ '\n' :: rest)) s
  | lastComment {p : Position} {mark line : List Char} (hmark : mark ∈ commentMarks) (hline : '\n' ∉ line) :
      Reads p (mark ++ line) ⟨[], none⟩
  | word {p : Position} {kind : TokenKind} {w rest : List Char} {s : TokenStream} (hw : w ≠ [])
      (hfront : front? (w ++ rest) = some (.token kind, w.length)) (h : Reads (p.advance w) rest s) :
      Reads p (w ++ rest) (s.push ⟨kind, String.ofList w, p⟩)
  | string {p : Position} {body rest : List Char} {s : TokenStream} (hbody : quoteMark ∉ body)
      (h : Reads (p.advance (quoteMark :: (body ++ [quoteMark]))) rest s) :
      Reads p (quoteMark :: (body ++ quoteMark :: rest)) (s.push ⟨.string, String.ofList body, p⟩)
  | unterminated {p : Position} {cs : List Char} (h : quoteMark ∉ cs) :
      Reads p (quoteMark :: cs) (.failure (.unterminatedString p))
  | unconsumed {p : Position} {cs : List Char} (hne : cs ≠ []) (h : front? cs = none) :
      Reads p cs (.failure (.unconsumedInput p (String.ofList (cs.take snippetLength))))

/-- **Every scan is a reading.** By induction on the length of the text: each lexeme has at least one character. -/
theorem reads_scan (p : Position) (cs : List Char) : Reads p cs (scan 0 p cs) := by
  have ih : ∀ p' rest, rest.length < cs.length → Reads p' rest (scan 0 p' rest) := fun p' rest _ => reads_scan p' rest
  rcases cs with _ | ⟨c, cs⟩
  · exact .done p
  cases hfront : front? (c :: cs) with
  | none =>
    rw [scan, hfront]
    exact .unconsumed (by simp) hfront
  | some found =>
    obtain ⟨reading, width⟩ := found
    obtain ⟨w, rest, heq, hw, rfl, hlexeme⟩ := exists_lexeme hfront
    rw [heq] at hfront ih ⊢
    have hpos := List.length_pos_iff.2 hw
    cases reading with
    | token kind =>
      rw [scan_token hw hfront]
      exact .word hw hfront (ih _ _ (by simp [hpos]))
    | blank =>
      rcases hlexeme with hcomment | hrun
      · obtain ⟨mark, hmark, tail, rfl⟩ := hcomment.exists_mark
        rw [List.append_assoc] at ih ⊢
        obtain ⟨line, hline, htail | ⟨more, htail⟩⟩ := exists_line (tail ++ rest)
        · rw [htail, scan_lastComment hmark hline]
          exact .lastComment hmark hline
        · rw [htail] at ih ⊢
          rw [scan_comment hmark hline]
          exact .comment hmark hline (ih _ _ (by simp; omega))
      · obtain ⟨d, ds, rfl⟩ := List.exists_cons_of_ne_nil hw
        have hd : isBlank d = true := hrun.all d List.mem_cons_self
        rw [List.cons_append] at ih ⊢
        rw [scan_blank hd]
        exact .blank hd (ih _ _ (by simp))
    | openQuote =>
      obtain rfl : w = [quoteMark] := hlexeme
      rw [List.singleton_append] at ih ⊢
      by_cases hclosed : quoteMark ∈ rest
      · obtain ⟨body, more, rfl, hbody⟩ := List.eq_append_cons_of_mem hclosed
        rw [scan_string hbody]
        exact .string hbody (ih _ _ (by simp; omega))
      · rw [scan_unterminated hclosed]
        exact .unterminated hclosed
termination_by cs.length

/-! ## Tokens by themselves -/

section Words

variable {cs : List Char} {kind : TokenKind} {width : Nat}

theorem not_blank_of_front (h : front? cs = some (.token kind, width)) : runLength isBlank cs = 0 := by
  rcases cs with _ | ⟨c, cs⟩
  · rfl
  · have hc : isBlank c = false := by
      by_contra hc
      rw [front?_blank (Bool.not_eq_false _ ▸ hc)] at h
      cases h
    exact runLength_of_head hc cs

theorem not_comment_of_front (h : front? cs = some (.token kind, width)) : commentWidth cs = 0 := by
  by_contra hcomment
  obtain ⟨mark, hmark, line, rfl⟩ := exists_mark (Nat.pos_of_ne_zero hcomment)
  rw [front?_comment hmark] at h
  cases h

/-- a token stays one when a blank and more text follow what stands behind it -/
theorem front?_delimited {w rest : List Char} (hw : w ≠ []) (h : front? (w ++ cs) = some (.token kind, w.length))
    (hrest : Delimited rest) : front? (w ++ (cs ++ rest)) = some (.token kind, w.length) := by
  have hne : w ++ cs ≠ [] := by simp [hw]
  rw [← List.append_assoc, front?_append hne (not_blank_of_front h) (not_comment_of_front h) hrest, h]

theorem kind_ne_string (h : front? cs = some (.token kind, width)) : kind ≠ .string := by
  rintro rfl
  obtain ⟨w, rest, -, -, -, hlexeme⟩ := exists_lexeme h
  exact hlexeme

end Words

/-- a word that is one token by itself is that token in front of a blank, too -/
theorem Spells.of_front {kind : TokenKind} {w : List Char} (h : front? w = some (.token kind, w.length)) : Spells kind w :=
  ⟨h, not_blank_of_front h, not_comment_of_front h⟩

/-- the word of a token is that token also when nothing follows it -/
theorem spells_of_front {kind : TokenKind} {w rest : List Char} (hw : w ≠ [])
    (hfront : front? (w ++ rest) = some (.token kind, w.length)) : Spells kind w := by
  have hcut : front? (w ++ []) = some (.token kind, w.length) := front?_cut hw hfront
  rw [List.append_nil] at hcut
  exact .of_front hcut

/-- the tokens of a reading, up to an error if there is one, are lexemes by themselves -/
theorem Reads.spelled {p : Position} {cs : List Char} {s : TokenStream} (h : Reads p cs s) :
    ∀ t ∈ s.tokens, t.Spelled := by
  induction h with
  | done | lastComment => simp
  | blank _ _ ih | comment _ _ _ ih => exact ih
  | @word p kind w rest s hw hfront _ ih =>
    have hword : Token.Spelled ⟨kind, String.ofList w, p⟩ := by
      have hkind := kind_ne_string hfront
      have hspells := spells_of_front hw hfront
      rw [← String.toList_ofList (l := w)] at hspells
      cases kind with
      | string => exact absurd rfl hkind
      | _ => exact hspells
    exact List.forall_mem_cons.2 ⟨hword, ih⟩
  | @string p body rest s hbody _ ih =>
    have hstring : Token.Spelled ⟨.string, String.ofList body, p⟩ := by
      rw [← String.toList_ofList (l := body)] at hbody
      exact hbody
    exact List.forall_mem_cons.2 ⟨hstring, ih⟩
  | unterminated | unconsumed => simp [TokenStream.failure]

end Lexer

theorem Lexer.reads_of_tokenize {text : String} {ts : List Token} (h : tokenize text = .ok ts) :
    Reads .start text.toList ⟨ts, none⟩ := by
  have hreads := reads_scan .start text.toList
  have hscan : scan 0 .start text.toList = ⟨ts, none⟩ := tokenize_eq_ok_iff.1 h
  rwa [hscan] at hreads

/-- **Writing tokens out undoes splitting.** The tokens of a text, strings in their quotes and all set apart by single
spaces, make a text with as many tokens, of the same kinds and texts and in the same order. -/
theorem tokenize_written {text : String} {ts : List Token} (h : tokenize text = .ok ts) :
    ∃ us, tokenize (spaced ts) = .ok us ∧ us.map Token.lexeme = ts.map Token.lexeme := by
  have hspelled : ∀ t ∈ ts, t.Spelled := (Lexer.reads_of_tokenize h).spelled
  exact tokenize_spaced hspelled

/-- the tokens of `1-1<=$a-'é--'//c` -/
def touchingTokens : List Token :=
  [⟨.number, "1", ⟨0, 1, 1⟩⟩, ⟨.number, "-1", ⟨1, 1, 2⟩⟩, ⟨.operator, "<=", ⟨3, 1, 4⟩⟩, ⟨.param, "$a-", ⟨5, 1, 6⟩⟩,
    ⟨.string, "é--", ⟨8, 1, 9⟩⟩]

/-- tokens that touch each other, a string that looks like a comment, and a comment at the end -/
theorem tokenize_written_touching :
    tokenize "1-1<=$a-'é--'//c" = .ok touchingTokens ∧
      ∃ us, tokenize "1 -1 <= $a- 'é--'" = .ok us ∧ us.map Token.lexeme = touchingTokens.map Token.lexeme := by
  have htokens : tokenize "1-1<=$a-'é--'//c" = .ok touchingTokens := by decide +kernel
  have hspaced : spaced touchingTokens = "1 -1 <= $a- 'é--'" := by decide +kernel
  rw [← hspaced]
  exact ⟨htokens, tokenize_written htokens⟩

end Formula
