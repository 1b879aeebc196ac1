/-
Texts on top of each other.

A newline ends whatever stands before it: a word because no rule goes on over it, a comment because it stops there, and
blanks because they are dropped one by one anyway; and a string that is open there was not read to its end. So the tokens
of a text are found again when a newline and more text follow it (`Reads.scan_newline`), and the scan goes on behind the
newline as at the start of a text, only with other positions (`scan_below`).

`tokenize_newline`: splitting two texts with a newline between them gives the tokens of the first, then the tokens or the
error of the second at the places where they stand now.
-/
import Mathlib.Tactic
import Formula.Proofs.Readings

namespace Formula

open Lexer

/-! ## Text in front -/

/-- a place in the second of two texts, counted from the start of the first, which a newline ends -/
def Position.below (text : String) (p : Position) : Position :=
  ⟨p.offset + (text.utf8ByteSize + 1), p.line + (text.toList.count '\n' + 1), p.column⟩

theorem Position.after_below (text : String) (p : Position) (c : Char) :
    (p.below text).after c = (p.after c).below text := by
  unfold below after
  split_ifs with hc
  · simp only [mk.injEq, and_true]
    omega
  · simp only [mk.injEq, and_true]
    omega

/-- the second text starts on a line of its own -/
theorem Position.start_below (text : String) : start.below text = (start.advance text.toList).after '\n' := by
  have hoffset := offset_advance start text.toList
  have hline := line_advance start text.toList
  rw [String.ofList_toList] at hoffset
  have hsize : ('\n' : Char).utf8Size = 1 := rfl
  unfold below after
  rw [if_pos rfl, hoffset, hline, hsize]
  simp only [start, mk.injEq, and_true]
  omega

def Token.below (text : String) (t : Token) : Token := { t with position := t.position.below text }

def LexError.below (text : String) : LexError → LexError
  | .unconsumedInput p snippet => .unconsumedInput (p.below text) snippet
  | .unterminatedString p => .unterminatedString (p.below text)

namespace TokenStream

def below (text : String) (s : TokenStream) : TokenStream :=
  ⟨s.tokens.map (Token.below text), s.error?.map (LexError.below text)⟩

/-- a stream with more tokens in front -/
def prepend (ts : List Token) (s : TokenStream) : TokenStream := ⟨ts ++ s.tokens, s.error?⟩

end TokenStream

/-- **A scan is the same wherever it starts**, up to the positions that it reports -/
theorem Lexer.scan_below (text : String) (covered : Nat) (p : Position) (cs : List Char) :
    scan covered (p.below text) cs = (scan covered p cs).below text := by
  fun_induction scan covered p cs with
  | case1 covered p => rfl
  | case2 covered p c cs ih => rw [scan, Position.after_below, ih]
  | case3 p c cs hfront =>
    rw [scan, hfront]
    rfl
  | case4 p c cs width hfront ih =>
    rw [scan, hfront]
    simp only [Position.after_below, ih]
  | case5 p c cs kind width hfront ih =>
    rw [scan, hfront]
    simp only [Position.after_below, ih]
    rfl
  | case6 p c cs width hfront body hopen =>
    rw [scan, hfront]
    simp only [body] at hopen
    simp only [hopen, if_true]
    rfl
  | case7 p c cs width hfront body hclosed ih =>
    rw [scan, hfront]
    simp only [body] at hclosed ih
    simp only [hclosed, if_false, Position.after_below, ih]
    rfl

/-! ## A newline and more text -/

/-- **What is read to its end is read again in front of a newline**, and the scan starts anew behind it -/
theorem Lexer.Reads.scan_newline {p : Position} {cs : List Char} {s : TokenStream} (h : Reads p cs s)
    (hs : s.error? = none) (rest : List Char) :
    scan 0 p (cs ++ '\n' :: rest) = (scan 0 ((p.advance cs).after '\n') rest).prepend s.tokens := by
  have hnewline : Delimited ('\n' :: rest) := delimited_cons rfl rest
  induction h with
  | done p => exact scan_blank rfl rest p
  | @blank p c cs s hc _ ih =>
    rw [List.cons_append, scan_blank hc, ih hs, Position.advance_cons]
  | @comment p mark line cs s hmark hline _ ih =>
    have hjoined : mark ++ (line ++ '\n' :: cs) ++ '\n' :: rest = mark ++ (line ++ '\n' :: (cs ++ '\n' :: rest)) := by
      simp
    have hcomment : mark ++ (line ++ '\n' :: cs) = mark ++ (line ++ ['\n']) ++ cs := by simp
    rw [hjoined, scan_comment hmark hline, ih hs, hcomment, Position.advance_append _ _ cs]
  | @lastComment p mark line hmark hline =>
    -- the comment goes up to the newline and takes it in
    have hadvance : p.advance (mark ++ (line ++ ['\n'])) = (p.advance (mark ++ line)).after '\n' := by
      rw [← List.append_assoc, Position.advance_append]
      rfl
    rw [List.append_assoc, scan_comment hmark hline, hadvance]
    rfl
  | @word p kind w cs s hw hfront _ ih =>
    rw [List.append_assoc, scan_token hw (front?_delimited hw hfront hnewline), ih hs, Position.advance_append]
    rfl
  | @string p body cs s hbody _ ih =>
    have hjoined : quoteMark :: (body ++ quoteMark :: cs) ++ '\n' :: rest =
        quoteMark :: (body ++ quoteMark :: (cs ++ '\n' :: rest)) := by simp
    have hstring : quoteMark :: (body ++ quoteMark :: cs) = quoteMark :: (body ++ [quoteMark]) ++ cs := by simp
    rw [hjoined, scan_string hbody, ih hs, hstring, Position.advance_append _ _ cs]
    rfl
  | unterminated | unconsumed => cases hs

/-- **Splitting goes line by line.** Behind a text that splits into tokens and a newline, any other text splits as it does
by itself: into its own tokens behind those of the first text, or with its own error, at the places where they stand now.
These are further by the bytes and the lines of the first text and its newline, in the same columns. -/
theorem tokenize_newline {above : String} {ts : List Token} (h : tokenize above = .ok ts) (text : String) :
    (∀ us, tokenize text = .ok us → tokenize (above ++ "\n" ++ text) = .ok (ts ++ us.map (Token.below above))) ∧
      ∀ e, tokenize text = .error e → tokenize (above ++ "\n" ++ text) = .error (e.below above) := by
  have hscan : TokenStream.ofText (above ++ "\n" ++ text) = ((TokenStream.ofText text).below above).prepend ts := by
    have hlist : (above ++ "\n" ++ text).toList = above.toList ++ '\n' :: text.toList := by
      simp only [String.toList_append, List.append_assoc]
      rfl
    have hjoined := (reads_of_tokenize h).scan_newline rfl text.toList
    rw [← Position.start_below, scan_below] at hjoined
    rw [TokenStream.ofText, TokenStream.ofText, hlist, hjoined]
  constructor
  · intro us hus
    have hstream := tokenize_eq_ok_iff.1 hus
    rw [tokenize_eq_ok_iff, hscan, hstream]
    rfl
  · intro e he
    have hstream := tokenize_eq_error_iff.1 he
    rw [tokenize_eq_error_iff, hscan]
    simp only [TokenStream.prepend, TokenStream.below, hstream, Option.map_some]

/-- a comment and a string with a newline above, and below a formula that ends in an open string -/
theorem tokenize_newline_open :
    tokenize "'é\n' --" = .ok [⟨.string, "é\n", .start⟩] ∧
      tokenize "1 2" = .ok [⟨.number, "1", .start⟩, ⟨.number, "2", ⟨2, 1, 3⟩⟩] ∧
      tokenize "'é\n' --\n1 2" =
        .ok [⟨.string, "é\n", .start⟩, ⟨.number, "1", ⟨9, 3, 1⟩⟩, ⟨.number, "2", ⟨11, 3, 3⟩⟩] ∧
      tokenize " 'x" = .error (.unterminatedString ⟨1, 1, 2⟩) ∧
      tokenize "'é\n' --\n 'x" = .error (.unterminatedString ⟨10, 3, 2⟩) := by
  have habove : tokenize "'é\n' --" = .ok [⟨.string, "é\n", .start⟩] := by decide +kernel
  have htwo : tokenize "1 2" = .ok [⟨.number, "1", .start⟩, ⟨.number, "2", ⟨2, 1, 3⟩⟩] := by decide +kernel
  have hopen : tokenize " 'x" = .error (.unterminatedString ⟨1, 1, 2⟩) := by decide +kernel
  exact ⟨habove, htwo, (tokenize_newline habove "1 2").1 _ htwo, hopen, (tokenize_newline habove " 'x").2 _ hopen⟩

end Formula
