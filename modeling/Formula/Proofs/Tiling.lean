/-
Tokens cover their text.

A token occupies the bytes of its text, with two more for the quotes of a string (`Token.start`, `Token.stop`). What lies
between the tokens of a text is filled with blanks and comments (`Filler`); only a comment at the very end of the text may
go without its newline. A reading of the text lays the tokens and these gaps out one after the other (`Laid`).

`tokenize_tiles`: the stretches that tokens occupy start and end between characters, follow each other without overlap, and
read as the tokens are written; every gap before, between and after them holds blanks and comments only.
-/
import Mathlib.Tactic
import Formula.Proofs.Readings

namespace Formula

open Lexer

/-! ## Stretches of a text -/

/-- the stretch of a text from one byte to another, if both stand between characters -/
def stretch? (text : String) (start stop : Nat) : Option String :=
  if h : String.Pos.Raw.IsValid text ⟨start⟩ ∧ String.Pos.Raw.IsValid text ⟨stop⟩ then
    (text.slice? (text.pos ⟨start⟩ h.1) (text.pos ⟨stop⟩ h.2)).map String.Slice.copy
  else none

theorem slice?_map_copy {text middle : String} {i j : text.Pos} :
    (text.slice? i j).map String.Slice.copy = some middle ↔ ∃ h, (text.slice i j h).copy = middle := by
  unfold String.slice?
  split_ifs with h
  · simp [h]
  · simp [h]

/-- a stretch is what stands between a part of the text of so many bytes and another part -/
theorem stretch?_eq_some_iff {text middle : String} {start stop : Nat} :
    stretch? text start stop = some middle ↔
      ∃ left right, text = left ++ middle ++ right ∧ start = left.utf8ByteSize ∧ stop = start + middle.utf8ByteSize := by
  rw [stretch?]
  constructor
  · intro h
    split_ifs at h with hvalid
    obtain ⟨left, right, hleft, hright⟩ := String.copy_slice_eq_iff_splits.1 (slice?_map_copy.1 h)
    have hstart : start = left.utf8ByteSize := congrArg String.Pos.Raw.byteIdx hleft.offset_eq_rawEndPos
    have hstop : stop = (left ++ middle).utf8ByteSize := congrArg String.Pos.Raw.byteIdx hright.offset_eq_rawEndPos
    rw [String.utf8ByteSize_append, ← hstart] at hstop
    exact ⟨left, right, hright.eq_append, hstart, hstop⟩
  · rintro ⟨left, right, rfl, rfl, rfl⟩
    have hassoc : left ++ middle ++ right = left ++ (middle ++ right) := String.append_assoc
    have hsize : left.utf8ByteSize + middle.utf8ByteSize = (left ++ middle).utf8ByteSize :=
      String.utf8ByteSize_append.symm
    have hstart : String.Pos.Raw.IsValid (left ++ middle ++ right) ⟨left.utf8ByteSize⟩ :=
      String.Pos.Raw.isValid_iff_exists_append.2 ⟨left, middle ++ right, hassoc, rfl⟩
    have hstop : String.Pos.Raw.IsValid (left ++ middle ++ right) ⟨left.utf8ByteSize + middle.utf8ByteSize⟩ :=
      String.Pos.Raw.isValid_iff_exists_append.2 ⟨left ++ middle, right, rfl, by rw [hsize]; rfl⟩
    rw [dif_pos ⟨hstart, hstop⟩, slice?_map_copy, String.copy_slice_eq_iff_splits]
    exact ⟨left, right, ⟨hassoc, rfl⟩, ⟨rfl, by rw [String.offset_pos, hsize]; rfl⟩⟩

/-! ## Tokens and gaps -/

namespace Token

/-- the byte at which a token starts -/
def start (t : Token) : Nat := t.position.offset

/-- the byte just behind a token: a string has a quote at either end of its text -/
def stop (t : Token) : Nat := t.start + t.text.utf8ByteSize + if t.kind = .string then 2 else 0

theorem stop_eq (t : Token) : t.stop = t.start + t.written.utf8ByteSize := by
  unfold stop written
  split_ifs with hkind
  · rw [hkind]
    simp only [String.utf8ByteSize_append]
    have hquote : "'".utf8ByteSize = 1 := rfl
    omega
  · split
    · contradiction
    · rfl

end Token

/-- where each gap starts and stops: before the first token, between neighbours, and behind the last one -/
def gapsFrom (start : Nat) (ts : List Token) (stop : Nat) : List (Nat × Nat) :=
  (start :: ts.map Token.stop).zip (ts.map Token.start ++ [stop])

/-- blanks and comments one after the other; only where the text ends may a comment lack its newline -/
inductive Filler (ends : Prop) : List Char → Prop where
  | nil : Filler ends []
  | blank {c : Char} {rest : List Char} (hc : isBlank c = true) (h : Filler ends rest) : Filler ends (c :: rest)
  | comment {mark line rest : List Char} (hmark : mark ∈ commentMarks) (hline : '\n' ∉ line) (h : Filler ends rest) :
      Filler ends (mark ++ (line ++ '\n' :: rest))
  | lastComment {mark line : List Char} (hmark : mark ∈ commentMarks) (hline : '\n' ∉ line) (hends : ends) :
      Filler ends (mark ++ line)

theorem Filler.mono {ends ends' : Prop} (himp : ends → ends') {cs : List Char} (h : Filler ends cs) :
    Filler ends' cs := by
  induction h with
  | nil => exact .nil
  | blank hc _ ih => exact .blank hc ih
  | comment hmark hline _ ih => exact .comment hmark hline ih
  | lastComment hmark hline hends => exact .lastComment hmark hline (himp hends)

/-- from byte `start` on, the text is a gap, a token, and so on up to a last gap -/
inductive Laid : (start : Nat) → List Char → List Token → Prop where
  | last {start : Nat} {gap : List Char} (hgap : Filler True gap) : Laid start gap []
  | token {start : Nat} {gap rest : List Char} {t : Token} {ts : List Token} (hgap : Filler False gap)
      (hstart : t.start = start + (String.ofList gap).utf8ByteSize) (hne : t.written ≠ "") (h : Laid t.stop rest ts) :
      Laid start (gap ++ (t.written.toList ++ rest)) (t :: ts)

namespace Laid

variable {start : Nat} {cs : List Char} {ts : List Token}

/-- what may stand in front of every filler may stand in front of the first gap -/
theorem skip {w : List Char} (hw : ∀ ends gap, Filler ends gap → Filler ends (w ++ gap))
    (h : Laid (start + (String.ofList w).utf8ByteSize) cs ts) : Laid start (w ++ cs) ts := by
  cases h with
  | last hgap => exact .last (hw _ _ hgap)
  | token hgap hstart hne h =>
    rw [← List.append_assoc]
    refine .token (hw _ _ hgap) ?_ hne h
    rw [hstart, String.ofList_append, String.utf8ByteSize_append, Nat.add_assoc]

/-- a token in front of what is laid out behind it -/
theorem push {t : Token} {w : List Char} (hwritten : t.written.toList = w) (hw : w ≠ [])
    (h : Laid (t.position.advance w).offset cs ts) : Laid t.position.offset (w ++ cs) (t :: ts) := by
  subst hwritten
  have hne : t.written ≠ "" := fun hempty => hw (by rw [hempty, String.toList_empty])
  have hstop : Laid t.stop cs ts := by
    rw [Position.offset_advance, String.ofList_toList] at h
    rw [t.stop_eq]
    exact h
  exact .token .nil rfl hne hstop

end Laid

/-- **A text that can be read is laid out as tokens and gaps** -/
theorem Lexer.Reads.laid {p : Position} {cs : List Char} {s : TokenStream} (h : Reads p cs s) (hs : s.error? = none) :
    Laid p.offset cs s.tokens := by
  induction h with
  | done p => exact .last .nil
  | @blank p c rest s hc _ ih =>
    have hrest := ih hs
    rw [Position.offset_after, ← String.utf8ByteSize_singleton, String.singleton_eq_ofList] at hrest
    exact hrest.skip fun _ _ hgap => .blank hc hgap
  | @comment p mark line rest s hmark hline _ ih =>
    have hrest := ih hs
    rw [Position.offset_advance] at hrest
    have hlaid : Laid p.offset (mark ++ (line ++ ['\n']) ++ rest) s.tokens := by
      apply hrest.skip
      intro ends gap hgap
      simpa using Filler.comment hmark hline hgap
    simpa using hlaid
  | lastComment hmark hline => exact .last (.lastComment hmark hline trivial)
  | @word p kind w rest s hw hfront _ ih =>
    have hwritten : (Token.mk kind (String.ofList w) p).written.toList = w := by
      rw [Token.toList_written_word (kind_ne_string hfront), String.toList_ofList]
    exact .push hwritten hw (ih hs)
  | @string p body rest s hbody _ ih =>
    have hwritten : (Token.mk .string (String.ofList body) p).written.toList = quoteMark :: (body ++ [quoteMark]) := by
      rw [Token.toList_written_string rfl, String.toList_ofList]
    have hsplit : quoteMark :: (body ++ quoteMark :: rest) = quoteMark :: (body ++ [quoteMark]) ++ rest := by simp
    rw [hsplit]
    exact .push hwritten (by simp) (ih hs)
  | unterminated | unconsumed => cases hs

/-! ## Reading off the layout -/

namespace Laid

variable {start : Nat} {cs : List Char} {ts : List Token}

theorem append_ofList_token (left : String) (gap rest : List Char) (t : Token) :
    left ++ String.ofList (gap ++ (t.written.toList ++ rest)) =
      left ++ String.ofList gap ++ t.written ++ String.ofList rest := by
  simp only [String.ofList_append, String.ofList_toList, String.append_assoc]

theorem lt_stop (h : Laid start cs ts) : ∀ t ∈ ts, t.start < t.stop := by
  induction h with
  | last _ => simp
  | @token start gap rest t ts _ _ hne _ ih =>
    have hlt : t.start < t.stop := by
      have hsize : t.written.utf8ByteSize ≠ 0 := fun hzero => hne (String.utf8ByteSize_eq_zero_iff.1 hzero)
      rw [t.stop_eq]
      omega
    exact List.forall_mem_cons.2 ⟨hlt, ih⟩

theorem le_start (h : Laid start cs ts) : ∀ t ∈ ts, start ≤ t.start := by
  induction h with
  | last _ => simp
  | @token start gap rest t ts _ hstart _ _ ih =>
    refine List.forall_mem_cons.2 ⟨by omega, ?_⟩
    intro u hu
    have hstop := t.stop_eq
    have hle := ih u hu
    omega

theorem ordered (h : Laid start cs ts) : ts.Pairwise fun t u => t.stop ≤ u.start := by
  induction h with
  | last _ => exact .nil
  | token _ _ _ h ih => exact .cons h.le_start ih

theorem stretch {left : String} (h : Laid left.utf8ByteSize cs ts) :
    ∀ t ∈ ts, stretch? (left ++ String.ofList cs) t.start t.stop = some t.written := by
  generalize hstart : left.utf8ByteSize = start at h
  induction h generalizing left with
  | last _ => simp
  | @token start gap rest t ts _ hgap _ _ ih =>
    rw [append_ofList_token]
    have hsize : t.start = (left ++ String.ofList gap).utf8ByteSize := by
      rw [String.utf8ByteSize_append, hstart, hgap]
    have hsize' : (left ++ String.ofList gap ++ t.written).utf8ByteSize = t.stop := by
      rw [String.utf8ByteSize_append, ← hsize, t.stop_eq]
    refine List.forall_mem_cons.2 ⟨?_, ih hsize'⟩
    exact stretch?_eq_some_iff.2 ⟨_, _, rfl, hsize, t.stop_eq⟩

theorem filler {left : String} (h : Laid left.utf8ByteSize cs ts) :
    ∀ gap ∈ gapsFrom left.utf8ByteSize ts (left ++ String.ofList cs).utf8ByteSize,
      ∃ filler, stretch? (left ++ String.ofList cs) gap.1 gap.2 = some filler ∧
        Filler (gap.2 = (left ++ String.ofList cs).utf8ByteSize) filler.toList := by
  generalize hstart : left.utf8ByteSize = start at h
  induction h generalizing left with
  | @last start gap hgap =>
    have hgaps : gapsFrom start [] (left ++ String.ofList gap).utf8ByteSize =
        [(start, (left ++ String.ofList gap).utf8ByteSize)] := rfl
    rw [hgaps, List.forall_mem_singleton]
    refine ⟨String.ofList gap, stretch?_eq_some_iff.2 ⟨left, "", ?_, hstart.symm, ?_⟩, ?_⟩
    · rw [String.append_empty]
    · rw [String.utf8ByteSize_append, hstart]
    · rw [String.toList_ofList]
      exact hgap.mono fun _ => rfl
  | @token start gap rest t ts hgap hsize _ _ ih =>
    rw [append_ofList_token]
    have hstop : (left ++ String.ofList gap ++ t.written).utf8ByteSize = t.stop := by
      rw [String.utf8ByteSize_append, String.utf8ByteSize_append, hstart, ← hsize, t.stop_eq]
    have hgaps : ∀ stop, gapsFrom start (t :: ts) stop = (start, t.start) :: gapsFrom t.stop ts stop := fun _ => rfl
    rw [hgaps]
    refine List.forall_mem_cons.2 ⟨⟨String.ofList gap, ?_, ?_⟩, ih hstop⟩
    · refine stretch?_eq_some_iff.2 ⟨left, t.written ++ String.ofList rest, ?_, hstart.symm, hsize⟩
      simp only [String.append_assoc]
    · rw [String.toList_ofList]
      exact hgap.mono False.elim

end Laid

/-- **The tokens of a text tile it.** The stretch that a token occupies starts and stops between characters and is the
token as written; the stretches are not empty, and one stops before the next starts; and every gap that they leave is
filled with blanks and comments, of which only one that runs to the end of the text has no newline. -/
theorem tokenize_tiles {text : String} {ts : List Token} (h : tokenize text = .ok ts) :
    (∀ t ∈ ts, stretch? text t.start t.stop = some t.written) ∧ (∀ t ∈ ts, t.start < t.stop) ∧
      (ts.Pairwise fun t u => t.stop ≤ u.start) ∧
      ∀ gap ∈ gapsFrom 0 ts text.utf8ByteSize, ∃ filler, stretch? text gap.1 gap.2 = some filler ∧
        Filler (gap.2 = text.utf8ByteSize) filler.toList := by
  have hlaid : Laid "".utf8ByteSize text.toList ts := (reads_of_tokenize h).laid rfl
  have hstretch := hlaid.stretch
  have hfiller := hlaid.filler
  simp only [String.ofList_toList, String.empty_append] at hstretch hfiller
  exact ⟨hstretch, hlaid.lt_stop, hlaid.ordered, hfiller⟩

/-- characters of several bytes in a comment and in a string, and a comment that ends with the text -/
theorem tokenize_tiles_accents :
    tokenize "--ü\n 'é'+//" = .ok [⟨.string, "é", ⟨6, 2, 2⟩⟩, ⟨.operator, "+", ⟨10, 2, 5⟩⟩] ∧
      stretch? "--ü\n 'é'+//" 6 10 = some "'é'" ∧ stretch? "--ü\n 'é'+//" 10 11 = some "+" ∧
      (∃ filler, stretch? "--ü\n 'é'+//" 0 6 = some filler ∧ Filler False filler.toList) ∧
      ∃ filler, stretch? "--ü\n 'é'+//" 11 13 = some filler ∧ Filler True filler.toList := by
  have htokens : tokenize "--ü\n 'é'+//" = .ok [⟨.string, "é", ⟨6, 2, 2⟩⟩, ⟨.operator, "+", ⟨10, 2, 5⟩⟩] := by
    decide +kernel
  obtain ⟨hstretch, -, -, hgaps⟩ := tokenize_tiles htokens
  obtain ⟨hstring, hstretch⟩ := List.forall_mem_cons.1 hstretch
  obtain ⟨hplus, -⟩ := List.forall_mem_cons.1 hstretch
  obtain ⟨first, hfirst, hfiller⟩ := hgaps (0, 6) (by decide +kernel)
  obtain ⟨last, hlast, hfiller'⟩ := hgaps (11, 13) (by decide +kernel)
  refine ⟨htokens, hstring, hplus, ⟨first, hfirst, hfiller.mono ?_⟩, last, hlast, hfiller'.mono fun _ => trivial⟩
  decide +kernel

end Formula
