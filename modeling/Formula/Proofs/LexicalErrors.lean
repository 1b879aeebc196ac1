/-
Where a text cannot be split.

A scan that stops with an error has read everything before the place of the error. What it read there does not depend on
what follows: a word stays the longest match when the text is cut off behind it, a comment is closed by its own newline and
a string by its own quote, since otherwise there would be nothing left to fail at. So the text up to the error is split
into the same tokens (`Reads.before_error`).

`tokenize_stops`: an error stands at the first offset that cannot be passed, the tokens before it are those of the text up
to there, and the error says what is wrong with the rest.
-/
import Mathlib.Tactic
import Formula.Proofs.Positions

namespace Formula

open Lexer

/-! ## What is wrong -/

/-- no rule of the lexer matches at the front of this text, and no word that one could match stands there -/
structure Lexer.Unmatched (rest : List Char) : Prop where
  width : ∀ rule ∈ rules, rule.width rest = 0
  lexeme : ∀ reading w, Lexeme reading w → w ≠ [] → ¬w <+: rest

/-- what a lexical error says about the text from its place on -/
def LexError.Describes (rest : List Char) : LexError → Prop
  | .unterminatedString _ => ∃ body, rest = quoteMark :: body ∧ quoteMark ∉ body
  | .unconsumedInput _ snippet => rest ≠ [] ∧ Unmatched rest ∧ snippet.toList = rest.take (min 10 rest.length)

namespace Lexer

/-- every lexeme is a word of the language of some rule -/
theorem exists_rule_of_lexeme {reading : Reading} {w : List Char} (h : Lexeme reading w) :
    ∃ rule ∈ rules, ∃ L, Measures L rule.width ∧ L w := by
  rcases reading with kind | _ | _
  · cases kind with
    | operator => exact ⟨⟨.token .operator, tableWidth symbols⟩, by simp [rules], _, measures_tableWidth symbols, h⟩
    | keyword =>
      exact ⟨⟨.token .keyword, tableWidth reservedWords⟩, by simp [rules], _, measures_tableWidth reservedWords, h⟩
    | param => exact ⟨⟨.token .param, paramWidth⟩, by simp [rules], _, measures_paramWidth, h⟩
    | string => exact h.elim
    | number => exact ⟨⟨.token .number, numberWidth⟩, by simp [rules], _, measures_numberWidth, h⟩
    | ident => exact ⟨⟨.token .ident, runLength isWordChar⟩, by simp [rules], _, measures_runLength isWordChar, h⟩
  · rcases h with hcomment | hblank
    · exact ⟨⟨.blank, commentWidth⟩, by simp [rules], _, measures_commentWidth, hcomment⟩
    · exact ⟨⟨.blank, runLength isBlank⟩, by simp [rules], _, measures_runLength isBlank, hblank⟩
  · exact ⟨⟨.openQuote, quoteWidth⟩, by simp [rules], _, measures_quoteWidth, h⟩

theorem unmatched_of_front {rest : List Char} (h : front? rest = none) : Unmatched rest := by
  rw [front?] at h
  have hwidth := width_of_longest_none h
  refine ⟨hwidth, ?_⟩
  rintro reading w hlexeme hw ⟨more, rfl⟩
  obtain ⟨rule, hrule, L, hmeasures, hL⟩ := exists_rule_of_lexeme hlexeme
  have hle := hmeasures.longest w more hL
  have hpos := List.length_pos_iff.2 hw
  have hzero := hwidth rule hrule
  omega

/-! ## The text before -/

/-- **What is read before an error is read again when the text ends there** -/
theorem Reads.before_error {p : Position} {cs : List Char} {s : TokenStream} (h : Reads p cs s) {e : LexError}
    (he : s.error? = some e) :
    ∃ before rest, cs = before ++ rest ∧ e.position = p.advance before ∧ scan 0 p before = ⟨s.tokens, none⟩ ∧
      e.Describes rest := by
  induction h with
  | done | lastComment => cases he
  | @blank p c cs s hc _ ih =>
    obtain ⟨before, rest, rfl, hplace, hscan, hrest⟩ := ih he
    exact ⟨c :: before, rest, rfl, hplace, by rw [scan_blank hc, hscan], hrest⟩
  | @comment p mark line cs s hmark hline _ ih =>
    obtain ⟨before, rest, rfl, hplace, hscan, hrest⟩ := ih he
    refine ⟨mark ++ (line ++ '\n' :: before), rest, by simp, ?_, by rw [scan_comment hmark hline, hscan], hrest⟩
    rw [hplace, ← Position.advance_append]
    simp
  | @word p kind w cs s hw hfront _ ih =>
    obtain ⟨before, rest, rfl, hplace, hscan, hrest⟩ := ih he
    refine ⟨w ++ before, rest, by simp, ?_, ?_, hrest⟩
    · rw [hplace, Position.advance_append]
    · rw [scan_token hw (front?_cut hw hfront), hscan]
      rfl
  | @string p body cs s hbody _ ih =>
    obtain ⟨before, rest, rfl, hplace, hscan, hrest⟩ := ih he
    refine ⟨quoteMark :: (body ++ quoteMark :: before), rest, by simp, ?_, ?_, hrest⟩
    · rw [hplace, ← Position.advance_append]
      simp
    · rw [scan_string hbody, hscan]
      rfl
  | @unterminated p cs hopen =>
    obtain rfl := Option.some.inj he
    exact ⟨[], quoteMark :: cs, rfl, rfl, rfl, cs, rfl, hopen⟩
  | @unconsumed p cs hne hfront =>
    obtain rfl := Option.some.inj he
    refine ⟨[], cs, rfl, rfl, rfl, hne, unmatched_of_front hfront, ?_⟩
    rw [String.toList_ofList, ← List.take_take, List.take_length]
    rfl

end Lexer

/-! ## Whole texts -/

/-- **A lexical error stands at the first bad offset, and nothing before it is lost.** If a text cannot be split, then it can
be up to the offset of the error, and the stream of the whole text answers with the tokens of that part one by one, then
with the error, and from there on that it is over. An open string starts with the last quote of the text, and where nothing
matches the error shows the next characters, ten of them at most. -/
theorem tokenize_stops {text : String} {e : LexError} (h : tokenize text = .error e) :
    ∃ before rest ts, text = before ++ rest ∧ e.position.offset = before.utf8ByteSize ∧ tokenize before = .ok ts ∧
      (∀ n, (TokenStream.ofText text).answer n = if n = ts.length then .error e else .ok ts[n]?) ∧
      e.Describes rest.toList := by
  have herror := tokenize_eq_error_iff.1 h
  obtain ⟨before, rest, htext, hplace, hscan, hrest⟩ := (reads_scan .start text.toList).before_error herror
  refine ⟨String.ofList before, String.ofList rest, (TokenStream.ofText text).tokens, ?_, ?_, ?_, ?_, ?_⟩
  · rw [← String.ofList_append, ← htext, String.ofList_toList]
  · rw [hplace, Position.offset_advance]
    exact Nat.zero_add _
  · rw [tokenize_eq_ok_iff, TokenStream.ofText, String.toList_ofList]
    exact hscan
  · intro n
    rw [← TokenStream.answer_failing, ← herror]
  · rwa [String.toList_ofList]

/-- a point behind a number that no digit follows, and a string that is left open right behind another one -/
theorem tokenize_stops_point :
    tokenize "--é\n1.é3456789abc" = .error (.unconsumedInput ⟨6, 2, 2⟩ ".é3456789a") ∧
      (∃ before rest ts, "--é\n1.é3456789abc" = before ++ rest ∧ 6 = before.utf8ByteSize ∧ tokenize before = .ok ts ∧
        (∀ n, (TokenStream.ofText "--é\n1.é3456789abc").answer n =
          if n = ts.length then .error (.unconsumedInput ⟨6, 2, 2⟩ ".é3456789a") else .ok ts[n]?) ∧
        rest.toList ≠ [] ∧ Unmatched rest.toList ∧ ".é3456789a".toList = rest.toList.take (min 10 rest.toList.length)) ∧
      tokenize "'a''b" = .error (.unterminatedString ⟨3, 1, 4⟩) ∧
      ∃ before rest ts, "'a''b" = before ++ rest ∧ 3 = before.utf8ByteSize ∧ tokenize before = .ok ts ∧
        (∀ n, (TokenStream.ofText "'a''b").answer n =
          if n = ts.length then .error (.unterminatedString ⟨3, 1, 4⟩) else .ok ts[n]?) ∧
        ∃ body, rest.toList = quoteMark :: body ∧ quoteMark ∉ body := by
  have hpoint : tokenize "--é\n1.é3456789abc" = .error (.unconsumedInput ⟨6, 2, 2⟩ ".é3456789a") := by decide +kernel
  have hopen : tokenize "'a''b" = .error (.unterminatedString ⟨3, 1, 4⟩) := by decide +kernel
  exact ⟨hpoint, tokenize_stops hpoint, hopen, tokenize_stops hopen⟩

end Formula
