/-
Where tokens and errors stand.

The lexer keeps its position as it goes: every character moves it by one column or to the next line. A position in a text
can also be counted anew: the line by the newlines before it, and the column by the characters on the line that it is on
(`Position.Exact`). Both come to the same, since the lexer only moves over what stands before the place that it is at
(`Reads.placed`).

`positions_exact`: whatever is read from the stream of a text, tokens and error alike, has the position that counting gives.
-/
import Mathlib.Tactic
import Mathlib.Data.List.DropRight
import Formula.Proofs.Tiling

namespace Formula

open Lexer

/-! ## Counting -/

/-- what follows the last newline, or all if there is none -/
def lastLine (cs : List Char) : List Char := cs.rtakeWhile (· != '\n')

namespace Position

/-- columns count the characters since the last newline -/
theorem column_advance (cs : List Char) : (start.advance cs).column = 1 + (lastLine cs).length := by
  induction cs using List.reverseRecOn with
  | nil => rfl
  | append_singleton cs c ih =>
    rw [advance_append, advance_cons, advance_nil, lastLine, List.rtakeWhile_concat]
    by_cases hc : c = '\n'
    · simp [after, hc]
    · simp only [after, hc, if_false, ih, lastLine, bne_iff_ne, ne_eq, not_false_eq_true, if_true, List.length_append,
        List.length_singleton]
      omega

/-- the line and the column of `p` are those of the byte at its offset, counted from the start of the text -/
def Exact (text : String) (p : Position) : Prop :=
  ∃ before, stretch? text 0 p.offset = some before ∧ p.line = 1 + before.toList.count '\n' ∧
    p.column = 1 + (lastLine before.toList).length

/-- the position that is reached over the front of a text is exact -/
theorem exact_advance {text : String} {before : List Char} (h : before <+: text.toList) :
    (start.advance before).Exact text := by
  obtain ⟨rest, hrest⟩ := h
  have htext : text = "" ++ String.ofList before ++ String.ofList rest := by
    rw [String.empty_append, ← String.ofList_append, hrest, String.ofList_toList]
  refine ⟨String.ofList before, stretch?_eq_some_iff.2 ⟨"", String.ofList rest, htext, rfl, ?_⟩, ?_, ?_⟩
  · exact offset_advance start before
  · rw [String.toList_ofList]
    exact line_advance start before
  · rw [String.toList_ofList]
    exact column_advance before

end Position

/-! ## Streams -/

namespace TokenStream

variable {P : Position → Prop}

/-- all tokens of the stream, and its error, are at positions with the property `P` -/
structure Placed (P : Position → Prop) (s : TokenStream) : Prop where
  tokens : ∀ t ∈ s.tokens, P t.position
  error : ∀ e ∈ s.error?, P e.position

theorem placed_nil : Placed P ⟨[], none⟩ := by
  constructor
  · simp
  · simp

theorem placed_failure {e : LexError} (he : P e.position) : Placed P (failure e) := by
  constructor
  · simp [failure]
  · intro e' he'
    obtain rfl := Option.some.inj he'
    exact he

theorem Placed.push {s : TokenStream} (h : s.Placed P) {t : Token} (ht : P t.position) : (s.push t).Placed P where
  tokens := List.forall_mem_cons.2 ⟨ht, h.tokens⟩
  error := h.error

/-- what the stream answers when it is read for the `n + 1`-st time -/
def answer (s : TokenStream) : (n : Nat) → Except LexError (Option Token)
  | 0 => s.next.1
  | n + 1 => s.next.2.answer n

/-- a stream without an error answers with its tokens one by one, and then always that it is over -/
theorem answer_whole (ts : List Token) (n : Nat) : answer ⟨ts, none⟩ n = .ok ts[n]? := by
  induction n generalizing ts with
  | zero => cases ts <;> rfl
  | succ n ih =>
    cases ts with
    | nil => exact ih []
    | cons t ts => exact ih ts

/-- a stream with an error answers with it once, right after its tokens -/
theorem answer_failing (ts : List Token) (e : LexError) (n : Nat) :
    answer ⟨ts, some e⟩ n = if n = ts.length then .error e else .ok ts[n]? := by
  induction n generalizing ts with
  | zero => cases ts <;> rfl
  | succ n ih =>
    cases ts with
    | nil => exact answer_whole [] n
    | cons t ts =>
      simp only [List.length_cons, Nat.add_right_cancel_iff, List.getElem?_cons_succ]
      exact ih ts

/-- whatever is read from a stream are its tokens -/
theorem mem_of_answer {s : TokenStream} {n : Nat} {t : Token} (h : s.answer n = .ok (some t)) : t ∈ s.tokens := by
  rcases s with ⟨ts, _ | e⟩
  · rw [answer_whole] at h
    exact List.mem_of_getElem? (Except.ok.inj h)
  · rw [answer_failing] at h
    split_ifs at h
    exact List.mem_of_getElem? (Except.ok.inj h)

theorem error_of_answer {s : TokenStream} {n : Nat} {e : LexError} (h : s.answer n = .error e) : s.error? = some e := by
  rcases s with ⟨ts, _ | e'⟩
  · rw [answer_whole] at h
    cases h
  · rw [answer_failing] at h
    split_ifs at h
    exact congrArg some (Except.error.inj h)

/-- whenever the stream is read, the answer is at a position with the property -/
theorem Placed.answer {s : TokenStream} (h : s.Placed P) (n : Nat) :
    (∀ t, s.answer n = .ok (some t) → P t.position) ∧ ∀ e, s.answer n = .error e → P e.position :=
  ⟨fun t ht => h.tokens t (mem_of_answer ht), fun e he => h.error e (error_of_answer he)⟩

end TokenStream

/-! ## Readings -/

/-- what holds of the places behind a front of the text holds of those in the rest -/
theorem Position.forall_advance {P : Position → Prop} {p : Position} {w rest : List Char}
    (h : ∀ before, before <+: w ++ rest → P (p.advance before)) :
    ∀ before, before <+: rest → P ((p.advance w).advance before) := by
  intro before hbefore
  rw [← advance_append]
  exact h (w ++ before) ((List.prefix_append_right_inj w).2 hbefore)

/-- **A reading stays in its text**: it shows only positions that are reached over a front of the text -/
theorem Lexer.Reads.placed {P : Position → Prop} {p : Position} {cs : List Char} {s : TokenStream} (h : Reads p cs s)
    (hP : ∀ before, before <+: cs → P (p.advance before)) : s.Placed P := by
  have hhere : ∀ {q : Position} {ds : List Char}, (∀ before, before <+: ds → P (q.advance before)) → P q := by
    intro q ds hq
    exact hq [] List.nil_prefix
  induction h with
  | done p => exact TokenStream.placed_nil
  | @blank p c rest s hc _ ih => exact ih (Position.forall_advance (w := [c]) hP)
  | @comment p mark line rest s hmark hline _ ih =>
    apply ih
    apply Position.forall_advance
    simpa using hP
  | lastComment => exact TokenStream.placed_nil
  | word hw hfront _ ih => exact (ih (Position.forall_advance hP)).push (hhere hP)
  | @string p body rest s hbody _ ih =>
    refine (ih (Position.forall_advance ?_)).push (hhere hP)
    simpa using hP
  | unterminated => exact TokenStream.placed_failure (hhere hP)
  | unconsumed => exact TokenStream.placed_failure (hhere hP)

theorem TokenStream.placed_ofText (text : String) : (ofText text).Placed (Position.Exact text) := by
  apply (reads_scan .start text.toList).placed
  intro before hbefore
  exact Position.exact_advance hbefore

/-- **Positions are exact.** Whenever the stream of a text is read, a token or an error that it answers with stands where its
position says: on the line after so many newlines, and behind so many characters on that line. The same holds of the
tokens, or of the error, that the text is split into. -/
theorem positions_exact (text : String) :
    (∀ n t, (TokenStream.ofText text).answer n = .ok (some t) → t.position.Exact text) ∧
      (∀ n e, (TokenStream.ofText text).answer n = .error e → e.position.Exact text) ∧
      (∀ ts, tokenize text = .ok ts → ∀ t ∈ ts, t.position.Exact text) ∧
      ∀ e, tokenize text = .error e → e.position.Exact text := by
  have hplaced := TokenStream.placed_ofText text
  refine ⟨fun n => (hplaced.answer n).1, fun n => (hplaced.answer n).2, ?_, ?_⟩
  · intro ts hts
    rw [tokenize_eq_ok_iff.1 hts] at hplaced
    exact hplaced.tokens
  · intro e he
    exact hplaced.error e (tokenize_eq_error_iff.1 he)

/-- a comment with an accent, a string over two lines, and a letter that starts no token -/
theorem positions_exact_lines :
    tokenize "--é\n'x\ny'" = .ok [⟨.string, "x\ny", ⟨5, 2, 1⟩⟩] ∧ Position.Exact "--é\n'x\ny'" ⟨5, 2, 1⟩ ∧
      (TokenStream.ofText "--é\n'x\ny' ü").answer 0 = .ok (some ⟨.string, "x\ny", ⟨5, 2, 1⟩⟩) ∧
      Position.Exact "--é\n'x\ny' ü" ⟨5, 2, 1⟩ ∧
      (TokenStream.ofText "--é\n'x\ny' ü").answer 1 = .error (.unconsumedInput ⟨11, 3, 4⟩ "ü") ∧
      tokenize "--é\n'x\ny' ü" = .error (.unconsumedInput ⟨11, 3, 4⟩ "ü") ∧
      Position.Exact "--é\n'x\ny' ü" ⟨11, 3, 4⟩ := by
  have htokens : tokenize "--é\n'x\ny'" = .ok [⟨.string, "x\ny", ⟨5, 2, 1⟩⟩] := by decide +kernel
  have htoken : (TokenStream.ofText "--é\n'x\ny' ü").answer 0 = .ok (some ⟨.string, "x\ny", ⟨5, 2, 1⟩⟩) := by
    decide +kernel
  have herror : (TokenStream.ofText "--é\n'x\ny' ü").answer 1 = .error (.unconsumedInput ⟨11, 3, 4⟩ "ü") := by
    decide +kernel
  have hfailed : tokenize "--é\n'x\ny' ü" = .error (.unconsumedInput ⟨11, 3, 4⟩ "ü") := by decide +kernel
  obtain ⟨-, -, hsplit, -⟩ := positions_exact "--é\n'x\ny'"
  obtain ⟨hread, -, -, hstopped⟩ := positions_exact "--é\n'x\ny' ü"
  have hstring := hsplit _ htokens _ (List.mem_singleton_self _)
  exact ⟨htokens, hstring, htoken, hread 0 _ htoken, herror, hfailed, hstopped _ hfailed⟩

end Formula
