/-
Tokens set apart by spaces.

A rule of the lexer matches a word in the same way whether the text ends after the word or goes on with a blank, unless
the word is blank itself or opens a comment (`front?_append`). So a token whose text is a lexeme on its own is read as
that token in front of any blank, and a string is read up to its closing quote.

`tokenize_spaced`: the written forms of such tokens, joined by spaces, are split into the same tokens again.
-/
import Mathlib.Tactic
import Formula.Token.Lexer

namespace Formula

namespace Lexer

/-! ## The longest match -/

theorem longest_le {cs : List Char} {rules : List Rule} {width : Nat} (h : ∀ r ∈ rules, r.width cs ≤ width)
    {reading : Reading} {found : Nat} (hfound : longest cs rules = some (reading, found)) : found ≤ width := by
  induction rules generalizing reading found with
  | nil => simp [longest] at hfound
  | cons rule rules ih =>
    obtain ⟨hrule, hrules⟩ := List.forall_mem_cons.1 h
    rw [longest] at hfound
    cases hrest : longest cs rules with
    | none =>
      rw [hrest] at hfound
      split_ifs at hfound
      cases hfound
      exact hrule
    | some best =>
      have hbest := ih hrules hrest
      simp only [hrest] at hfound
      split_ifs at hfound with hle
      · cases hfound
        exact hrule
      · cases hfound
        exact hbest

/-- a match that is longer than those listed before it and no shorter than those after it wins -/
theorem longest_eq_some {cs : List Char} {before after : List Rule} {rule : Rule} (hpos : 0 < rule.width cs)
    (hbefore : ∀ r ∈ before, r.width cs < rule.width cs) (hafter : ∀ r ∈ after, r.width cs ≤ rule.width cs) :
    longest cs (before ++ rule :: after) = some (rule.reading, rule.width cs) := by
  induction before with
  | nil =>
    rw [List.nil_append, longest]
    cases hrest : longest cs after with
    | none => simp only [if_neg hpos.ne']
    | some best => simp only [if_pos (longest_le hafter hrest)]
  | cons r before ih =>
    obtain ⟨hr, hbefore⟩ := List.forall_mem_cons.1 hbefore
    rw [List.cons_append, longest, ih hbefore]
    simp only [if_neg (Nat.not_le.2 hr)]

theorem longest_congr {cs ds : List Char} {rules : List Rule} (h : ∀ r ∈ rules, r.width cs = r.width ds) :
    longest cs rules = longest ds rules := by
  induction rules with
  | nil => rfl
  | cons rule rules ih =>
    obtain ⟨hrule, hrules⟩ := List.forall_mem_cons.1 h
    rw [longest, longest, ih hrules, hrule]

/-! ## Words in front of a blank -/

/-- a text that is over or goes on with a blank -/
def Delimited (rest : List Char) : Prop := ∀ c, rest.head? = some c → isBlank c = true

theorem delimited_nil : Delimited [] := by
  intro c hc
  simp at hc

theorem delimited_cons {c : Char} (hc : isBlank c = true) (rest : List Char) : Delimited (c :: rest) := by
  intro d hd
  obtain rfl := Option.some.inj hd
  exact hc

theorem runLength_le (p : Char → Bool) (cs : List Char) : runLength p cs ≤ cs.length :=
  (List.takeWhile_prefix p).length_le

/-- a class without blanks -/
def Unblanked (p : Char → Bool) : Prop := [' ', '\t', '\n', '\r'].all (!p ·) = true

theorem Unblanked.eq_false {p : Char → Bool} (h : Unblanked p) {c : Char} (hc : isBlank c = true) : p c = false := by
  simp only [Unblanked, List.all_cons, List.all_nil, Bool.and_eq_true, Bool.not_eq_true'] at h
  simp only [isBlank, Bool.or_eq_true, beq_iff_eq] at hc
  rcases hc with ((rfl | rfl) | rfl) | rfl
  · exact h.1
  · exact h.2.1
  · exact h.2.2.1
  · exact h.2.2.2.1

variable {w rest : List Char}

theorem runLength_append {p : Char → Bool} (hp : Unblanked p) (hrest : Delimited rest) :
    runLength p (w ++ rest) = runLength p w := by
  have hstop : rest.takeWhile p = [] := by
    cases rest with
    | nil => rfl
    | cons c rest => rw [List.takeWhile_cons, hp.eq_false (hrest c rfl), if_neg Bool.false_ne_true]
  rw [runLength, runLength, List.takeWhile_append, hstop, List.append_nil]
  split_ifs with h
  · exact h.symm
  · rfl

theorem isPrefixOf_append {word : List Char} (hword : word.all (!isBlank ·) = true) (hrest : Delimited rest) :
    word.isPrefixOf (w ++ rest) = word.isPrefixOf w := by
  induction word generalizing w with
  | nil => simp
  | cons c word ih =>
    obtain ⟨hc, hword⟩ := Bool.and_eq_true_iff.1 (List.all_cons ▸ hword)
    cases w with
    | nil =>
      cases rest with
      | nil => rfl
      | cons d rest =>
        have hd : isBlank d = true := hrest d rfl
        have hne : (c == d) = false := by
          rw [beq_eq_false_iff_ne]
          rintro rfl
          simp [hd] at hc
        simp [List.isPrefixOf, hne]
    | cons d w => rw [List.cons_append, List.isPrefixOf, List.isPrefixOf, ih hword]

theorem tableWidth_append {table : List String} (htable : ∀ word ∈ table, word.toList.all (!isBlank ·) = true)
    (hrest : Delimited rest) : tableWidth table (w ++ rest) = tableWidth table w := by
  induction table with
  | nil => rfl
  | cons word table ih =>
    obtain ⟨hword, htable⟩ := List.forall_mem_cons.1 htable
    simp only [tableWidth, List.foldr_cons] at ih ⊢
    rw [ih htable, isPrefixOf_append hword hrest]

theorem paramWidth_append (hrest : Delimited rest) : paramWidth (w ++ rest) = paramWidth w := by
  have hmarks : runLength (· == '$') (w ++ rest) = runLength (· == '$') w := runLength_append rfl hrest
  have hdrop : (w ++ rest).drop (runLength (· == '$') w) = w.drop (runLength (· == '$') w) ++ rest :=
    List.drop_append_of_le_length (runLength_le _ _)
  simp only [paramWidth, hmarks, hdrop, runLength_append (p := isParamChar) rfl hrest]

theorem fractionWidth_append (hrest : Delimited rest) : fractionWidth (w ++ rest) = fractionWidth w := by
  rcases w with _ | ⟨c, w⟩
  · rcases rest with _ | ⟨d, rest⟩
    · rfl
    · have hd : isBlank d = true := hrest d rfl
      have hpoint : d ≠ '.' := by
        rintro rfl
        exact absurd hd (by decide)
      simp [fractionWidth, hpoint]
  · by_cases hpoint : c = '.'
    · subst hpoint
      simp only [List.cons_append, fractionWidth, runLength_append (p := Char.isDigit) rfl hrest]
    · simp [fractionWidth, hpoint]

theorem unsignedWidth_append (hrest : Delimited rest) : unsignedWidth (w ++ rest) = unsignedWidth w := by
  have hdigits : runLength Char.isDigit (w ++ rest) = runLength Char.isDigit w := runLength_append rfl hrest
  have hdrop : (w ++ rest).drop (runLength Char.isDigit w) = w.drop (runLength Char.isDigit w) ++ rest :=
    List.drop_append_of_le_length (runLength_le _ _)
  simp only [unsignedWidth, hdigits, hdrop, fractionWidth_append hrest]

theorem numberWidth_append (hw : w ≠ []) (hrest : Delimited rest) : numberWidth (w ++ rest) = numberWidth w := by
  obtain ⟨c, w, rfl⟩ := List.exists_cons_of_ne_nil hw
  by_cases hminus : c = '-'
  · subst hminus
    simp only [List.cons_append, numberWidth, unsignedWidth_append hrest]
  · have hunsigned := unsignedWidth_append (w := c :: w) hrest
    simpa [numberWidth, hminus] using hunsigned

/-- an open comment would swallow what follows -/
theorem commentWidth_append (hw : w ≠ []) (hcomment : commentWidth w = 0) (hrest : Delimited rest) :
    commentWidth (w ++ rest) = 0 := by
  rcases w with _ | ⟨c, _ | ⟨d, w⟩⟩
  · exact absurd rfl hw
  · rcases rest with _ | ⟨d, rest⟩
    · exact hcomment
    · have hd : isBlank d = true := hrest d rfl
      rw [List.singleton_append, commentWidth]
      · rintro rest' ⟨-, rfl⟩
        exact absurd hd (by decide)
      · rintro rest' ⟨-, rfl⟩
        exact absurd hd (by decide)
  · rw [List.cons_append, List.cons_append]
    unfold commentWidth at hcomment ⊢
    split at hcomment
    · omega
    · omega
    · simp_all

/-- **A word in front of a blank reads as on its own**, unless it is blank or opens a comment -/
theorem front?_append (hw : w ≠ []) (hblank : runLength isBlank w = 0) (hcomment : commentWidth w = 0)
    (hrest : Delimited rest) : front? (w ++ rest) = front? w := by
  have hsymbols : ∀ word ∈ symbols, word.toList.all (!isBlank ·) = true := by decide +kernel
  have hreserved : ∀ word ∈ reservedWords, word.toList.all (!isBlank ·) = true := by decide +kernel
  have hquote : quoteWidth (w ++ rest) = quoteWidth w := by
    obtain ⟨c, w, rfl⟩ := List.exists_cons_of_ne_nil hw
    rfl
  have hblank' : runLength isBlank (w ++ rest) = runLength isBlank w := by
    obtain ⟨c, w, rfl⟩ := List.exists_cons_of_ne_nil hw
    have hc : isBlank c = false := by
      by_contra hc
      simp [runLength, List.takeWhile_cons, hc] at hblank
    simp [runLength, hc]
  rw [front?, front?]
  apply longest_congr
  intro rule hrule
  simp only [rules, List.mem_cons, List.not_mem_nil, or_false] at hrule
  rcases hrule with rfl | rfl | rfl | rfl | rfl | rfl | rfl | rfl
  · exact tableWidth_append hsymbols hrest
  · exact tableWidth_append hreserved hrest
  · exact (commentWidth_append hw hcomment hrest).trans hcomment.symm
  · exact paramWidth_append hrest
  · exact hquote
  · exact numberWidth_append hw hrest
  · exact runLength_append rfl hrest
  · exact hblank'

/-! ## Scanning -/

/-- covered characters only move the position -/
theorem scan_covered {covered : Nat} {cs : List Char} (h : covered ≤ cs.length) (p : Position) :
    scan covered p cs = scan 0 (p.advance (cs.take covered)) (cs.drop covered) := by
  induction covered generalizing p cs with
  | zero => rfl
  | succ covered ih =>
    cases cs with
    | nil => simp at h
    | cons c cs =>
      rw [scan, ih (Nat.le_of_succ_le_succ h)]
      rfl

/-- a word that is one token of class `kind`, also in front of a blank -/
structure Spells (kind : TokenKind) (w : List Char) : Prop where
  front : front? w = some (.token kind, w.length)
  not_blank : runLength isBlank w = 0
  not_comment : commentWidth w = 0

instance (kind : TokenKind) (w : List Char) : Decidable (Spells kind w) :=
  decidable_of_iff (front? w = some (.token kind, w.length) ∧ runLength isBlank w = 0 ∧ commentWidth w = 0)
    ⟨fun ⟨h, h', h''⟩ => ⟨h, h', h''⟩, fun ⟨h, h', h''⟩ => ⟨h, h', h''⟩⟩

theorem front?_nil : front? [] = none := by decide +kernel

theorem Spells.ne_nil {kind : TokenKind} (h : Spells kind w) : w ≠ [] := by
  rintro rfl
  have hfront := h.front
  rw [front?_nil] at hfront
  cases hfront

/-- a lexeme at the front of the text is the first token -/
theorem scan_token {kind : TokenKind} (hw : w ≠ []) (hfront : front? (w ++ rest) = some (.token kind, w.length))
    (p : Position) : scan 0 p (w ++ rest) = (scan 0 (p.advance w) rest).push ⟨kind, String.ofList w, p⟩ := by
  obtain ⟨c, w, rfl⟩ := List.exists_cons_of_ne_nil hw
  rw [List.cons_append] at hfront ⊢
  have hcovered : w.length ≤ (w ++ rest).length := by simp
  simp [scan, hfront, scan_covered hcovered]

theorem scan_word {kind : TokenKind} (hw : Spells kind w) (hrest : Delimited rest) (p : Position) :
    scan 0 p (w ++ rest) = (scan 0 (p.advance w) rest).push ⟨kind, String.ofList w, p⟩ := by
  have hfront : front? (w ++ rest) = some (.token kind, w.length) :=
    (front?_append hw.ne_nil hw.not_blank hw.not_comment hrest).trans hw.front
  exact scan_token hw.ne_nil hfront p

theorem front?_quoteMark (cs : List Char) : front? (quoteMark :: cs) = some (.openQuote, 1) := by
  rw [front?]
  rfl

theorem front?_blank {c : Char} (hc : isBlank c = true) (cs : List Char) :
    front? (c :: cs) = some (.blank, runLength isBlank cs + 1) := by
  simp only [isBlank, Bool.or_eq_true, beq_iff_eq] at hc
  rw [front?]
  rcases hc with ((rfl | rfl) | rfl) | rfl <;> rfl

/-- blanks are skipped one by one -/
theorem scan_blank {c : Char} (hc : isBlank c = true) (cs : List Char) (p : Position) :
    scan 0 p (c :: cs) = scan 0 (p.after c) cs := by
  have hrun : scan 0 p (c :: cs) = scan (runLength isBlank cs) (p.after c) cs := by
    simp only [scan, front?_blank hc, Nat.add_sub_cancel]
  rw [hrun]
  rcases cs with _ | ⟨d, cs⟩
  · rfl
  · by_cases hd : isBlank d = true
    · -- the run goes on, and a scan that starts at `d` takes the same run
      have hlength : runLength isBlank (d :: cs) = runLength isBlank cs + 1 := by
        simp [runLength, hd]
      simp only [hlength, scan, front?_blank hd, Nat.add_sub_cancel]
    · have hlength : runLength isBlank (d :: cs) = 0 := by
        simp [runLength, hd]
      rw [hlength]

theorem bne_of_not_mem {c : Char} {cs : List Char} (h : c ∉ cs) : ∀ d ∈ cs, (d != c) = true := by
  intro d hd
  rw [bne_iff_ne]
  rintro rfl
  exact h hd

theorem scan_string {body : List Char} (hbody : quoteMark ∉ body) (p : Position) :
    scan 0 p (quoteMark :: (body ++ quoteMark :: rest)) =
      (scan 0 (p.advance (quoteMark :: (body ++ [quoteMark]))) rest).push ⟨.string, String.ofList body, p⟩ := by
  have hrun : (body ++ quoteMark :: rest).takeWhile (· != quoteMark) = body := by
    rw [List.takeWhile_append_of_pos (bne_of_not_mem hbody)]
    simp
  have hclosed : body.length ≠ (body ++ quoteMark :: rest).length := by simp
  have hcovered : body.length + 1 ≤ (body ++ quoteMark :: rest).length := by simp
  have hsplit : body ++ quoteMark :: rest = (body ++ [quoteMark]) ++ rest := by simp
  have htake : (body ++ quoteMark :: rest).take (body.length + 1) = body ++ [quoteMark] := by
    rw [hsplit]
    exact List.take_left' (by simp)
  have hdrop : (body ++ quoteMark :: rest).drop (body.length + 1) = rest := by
    rw [hsplit]
    exact List.drop_left' (by simp)
  simp only [scan, front?_quoteMark, hrun, if_neg hclosed, scan_covered hcovered, htake, hdrop, Position.advance_cons]

end Lexer

/-! ## Token lists -/

open Lexer

namespace Token

/-- a token without its position -/
def lexeme (t : Token) : TokenKind × String := (t.kind, t.text)

/-- the written form of the token is one lexeme on its own -/
def Spelled (t : Token) : Prop :=
  match t.kind with
  | .string => quoteMark ∉ t.text.toList
  | kind => Spells kind t.text.toList

theorem toList_written_string {t : Token} (h : t.kind = .string) :
    t.written.toList = quoteMark :: (t.text.toList ++ [quoteMark]) := by
  rw [written, h]
  simp only [String.toList_append]
  rfl

theorem toList_written_word {t : Token} (h : t.kind ≠ .string) : t.written.toList = t.text.toList := by
  rw [written]
  split
  · contradiction
  · rfl

theorem Spelled.spells {t : Token} (h : t.Spelled) (hkind : t.kind ≠ .string) : Spells t.kind t.text.toList := by
  rw [Spelled] at h
  split at h
  · contradiction
  · exact h

/-- a written token in front of a blank is read as that token -/
theorem Spelled.scan {t : Token} (h : t.Spelled) {rest : List Char} (hrest : Delimited rest) (p : Position) :
    scan 0 p (t.written.toList ++ rest) = (scan 0 (p.advance t.written.toList) rest).push ⟨t.kind, t.text, p⟩ := by
  by_cases hkind : t.kind = .string
  · have hbody : quoteMark ∉ t.text.toList := by
      rw [Spelled, hkind] at h
      exact h
    have hscan : Lexer.scan 0 p (quoteMark :: (t.text.toList ++ quoteMark :: rest)) = _ := scan_string hbody p
    rw [toList_written_string hkind, hkind]
    simpa using hscan
  · have hscan := scan_word (h.spells hkind) hrest p
    rw [toList_written_word hkind]
    simpa using hscan

end Token

/-- the written forms of some tokens, set apart by spaces -/
def spaced (ts : List Token) : String := " ".intercalate (ts.map Token.written)

theorem toList_spaced (ts : List Token) :
    (spaced ts).toList = [' '].intercalate (ts.map fun t => t.written.toList) := by
  rw [spaced, String.toList_intercalate, List.map_map]
  rfl

theorem scan_spaced {ts : List Token} (h : ∀ t ∈ ts, t.Spelled) (p : Position) :
    ∃ us, scan 0 p (spaced ts).toList = ⟨us, none⟩ ∧ us.map Token.lexeme = ts.map Token.lexeme := by
  simp only [toList_spaced]
  induction ts generalizing p with
  | nil => exact ⟨[], rfl, rfl⟩
  | cons t ts ih =>
    obtain ⟨ht, hts⟩ := List.forall_mem_cons.1 h
    cases ts with
    | nil =>
      refine ⟨[⟨t.kind, t.text, p⟩], ?_, rfl⟩
      have hscan := ht.scan delimited_nil p
      rw [List.append_nil] at hscan
      rw [List.map_singleton, List.intercalate_singleton, hscan]
      rfl
    | cons u ts =>
      -- the space after `t` ends it, and the next token starts right after that space
      obtain ⟨us, hscan, hlexemes⟩ := ih hts ((p.advance t.written.toList).after ' ')
      refine ⟨⟨t.kind, t.text, p⟩ :: us, ?_, by simp [Token.lexeme, hlexemes]⟩
      rw [List.map_cons] at hscan
      rw [List.map_cons, List.map_cons, List.intercalate_cons_cons, List.append_assoc, List.singleton_append,
        ht.scan (delimited_cons rfl _), scan_blank rfl, hscan]
      rfl

/-- **Spaced tokens are split into the same tokens** -/
theorem tokenize_spaced {ts : List Token} (h : ∀ t ∈ ts, t.Spelled) :
    ∃ us, tokenize (spaced ts) = .ok us ∧ us.map Token.lexeme = ts.map Token.lexeme := by
  obtain ⟨us, hscan, hlexemes⟩ := scan_spaced h .start
  refine ⟨us, ?_, hlexemes⟩
  rw [tokenize, TokenStream.ofText, hscan]
  rfl

end Formula
