/-
Parentheses and their partners.

A `(` and a `)` belong together if the tokens between them are balanced (`Matched`). In a balanced list every parenthesis
has its partner (`Balanced.hasPartner`). A `)` right after a balanced list has none before it and a `(` right before one
has none behind it (`not_matched_closer`, `not_matched_opener`): otherwise a prefix of the list would close more than it
opens.

`parse_parentheses`: the parentheses of a list that parses are balanced, and an error about a parenthesis is about the
first `)` without a `(`, or about the last `(` without a `)`.
-/
import Mathlib.Tactic
import Formula.Proofs.Failure
import Formula.Proofs.Precedence

namespace Formula

/-! ## Counting -/

/-- how often the operator or punctuation mark `symbol` occurs -/
def occurrences (symbol : String) (ts : List Token) : Nat := ts.countP (·.isOperator symbol)

section Occurrences

variable {t : Token}

theorem occurrences_nil (symbol : String) : occurrences symbol [] = 0 := rfl

theorem occurrences_append (symbol : String) (ts us : List Token) :
    occurrences symbol (ts ++ us) = occurrences symbol ts + occurrences symbol us := List.countP_append

theorem occurrences_other {symbol : String} (h : t.isOperator symbol = false) (ts : List Token) :
    occurrences symbol (t :: ts) = occurrences symbol ts :=
  List.countP_cons_of_neg (by simp [h])

theorem occurrences_opener (h : t.isOperator "(" = true) (ts : List Token) :
    occurrences "(" (t :: ts) = occurrences "(" ts + 1 ∧ occurrences ")" (t :: ts) = occurrences ")" ts := by
  have hother : t.isOperator ")" = false := by
    rw [Token.isOperator_of_isOperator h]
    decide
  exact ⟨List.countP_cons_of_pos h, occurrences_other hother ts⟩

theorem occurrences_closer (h : t.isOperator ")" = true) (ts : List Token) :
    occurrences "(" (t :: ts) = occurrences "(" ts ∧ occurrences ")" (t :: ts) = occurrences ")" ts + 1 := by
  have hother : t.isOperator "(" = false := by
    rw [Token.isOperator_of_isOperator h]
    decide
  exact ⟨occurrences_other hother ts, List.countP_cons_of_pos h⟩

end Occurrences

namespace Balanced

variable {ts : List Token}

/-- balanced tokens close as often as they open -/
theorem occurrences_eq (h : Balanced ts) : occurrences ")" ts = occurrences "(" ts := by
  induction h with
  | nil => rfl
  | token ho hc _ ih => rw [occurrences_other ho, occurrences_other hc, ih]
  | @group opener closer inner ts ho hc _ _ ihin ih =>
    obtain ⟨hopen, hopen'⟩ := occurrences_opener ho (inner ++ closer :: ts)
    obtain ⟨hclose, hclose'⟩ := occurrences_closer hc ts
    rw [hopen, hopen', occurrences_append, occurrences_append, hclose, hclose']
    omega

/-- no prefix of balanced tokens closes more often than it opens -/
theorem occurrences_le (h : Balanced ts) : ∀ front, front <+: ts → occurrences ")" front ≤ occurrences "(" front := by
  induction h with
  | nil =>
    intro front hfront
    rw [List.prefix_nil.1 hfront]
    exact le_rfl
  | token ho hc _ ih =>
    intro front hfront
    rcases List.prefix_cons_iff.1 hfront with rfl | ⟨rest, rfl, hrest⟩
    · exact le_rfl
    · rw [occurrences_other ho, occurrences_other hc]
      exact ih rest hrest
  | @group opener closer inner ts ho hc hin _ ihin ih =>
    intro front hfront
    rcases List.prefix_cons_iff.1 hfront with rfl | ⟨rest, rfl, hrest⟩
    · exact le_rfl
    obtain ⟨hopen, hopen'⟩ := occurrences_opener ho rest
    rcases List.prefix_or_prefix_of_prefix hrest (List.prefix_append inner _) with hinner | ⟨more, rfl⟩
    · have hle := ihin rest hinner
      omega
    · -- the prefix has all of the contents, and perhaps more
      have heq := hin.occurrences_eq
      rw [occurrences_append] at hopen hopen'
      rcases List.prefix_cons_iff.1 ((List.prefix_append_right_inj inner).1 hrest) with rfl | ⟨after, rfl, hafter⟩
      · rw [occurrences_nil] at hopen hopen'
        omega
      · obtain ⟨hclose, hclose'⟩ := occurrences_closer hc after
        have hle := ih after hafter
        omega

end Balanced

/-! ## Partners -/

/-- the `(` at index `i` and the `)` at index `j` belong together -/
def Matched (ts : List Token) (i j : Nat) : Prop :=
  ∃ before opener inner closer after, ts = before ++ opener :: (inner ++ closer :: after) ∧ i = before.length ∧
    j = before.length + inner.length + 1 ∧ opener.isOperator "(" = true ∧ closer.isOperator ")" = true ∧ Balanced inner

/-- the token at index `i` is a `)` without a `(` -/
def Unopened (ts : List Token) (i : Nat) : Prop :=
  (∃ t, ts[i]? = some t ∧ t.isOperator ")" = true) ∧ ¬∃ j, Matched ts j i

/-- the token at index `i` is a `(` without a `)` -/
def Unclosed (ts : List Token) (i : Nat) : Prop :=
  (∃ t, ts[i]? = some t ∧ t.isOperator "(" = true) ∧ ¬∃ j, Matched ts i j

/-- more tokens around a list do not part its pairs -/
theorem Matched.within {ts : List Token} {i j : Nat} (h : Matched ts i j) (head tail : List Token) :
    Matched (head ++ ts ++ tail) (head.length + i) (head.length + j) := by
  obtain ⟨before, opener, inner, closer, after, rfl, rfl, rfl, ho, hc, hin⟩ := h
  refine ⟨head ++ before, opener, inner, closer, after ++ tail, ?_, ?_, ?_, ho, hc, hin⟩
  · simp
  · simp
  · rw [List.length_append]
    omega

/-- the token `t` at index `i` has its partner, if it is a parenthesis -/
structure HasPartner (ts : List Token) (i : Nat) (t : Token) : Prop where
  opener : t.isOperator "(" = true → ∃ j, Matched ts i j
  closer : t.isOperator ")" = true → ∃ j, Matched ts j i

theorem HasPartner.within {ts : List Token} {i : Nat} {t : Token} (h : HasPartner ts i t) (head tail : List Token) :
    HasPartner (head ++ ts ++ tail) (head.length + i) t := by
  constructor
  · intro ho
    obtain ⟨j, hj⟩ := h.opener ho
    exact ⟨_, hj.within head tail⟩
  · intro hc
    obtain ⟨j, hj⟩ := h.closer hc
    exact ⟨_, hj.within head tail⟩

/-- **In balanced tokens every parenthesis has its partner** -/
theorem Balanced.hasPartner {ts : List Token} (h : Balanced ts) : ∀ i t, ts[i]? = some t → HasPartner ts i t := by
  induction h with
  | nil =>
    intro i t ht
    simp at ht
  | @token u ts ho hc _ ih =>
    intro i t ht
    cases i with
    | zero =>
      obtain rfl : u = t := by simpa using ht
      exact ⟨by simp [ho], by simp [hc]⟩
    | succ i =>
      have hrest : HasPartner ts i t := ih i t (by simpa using ht)
      simpa [Nat.add_comm] using hrest.within [u] []
  | @group opener closer inner ts ho hc hin _ ihin ih =>
    intro i t ht
    have hpair : Matched (opener :: (inner ++ closer :: ts)) 0 (inner.length + 1) :=
      ⟨[], opener, inner, closer, ts, rfl, rfl, by simp, ho, hc, hin⟩
    cases i with
    | zero =>
      obtain rfl : opener = t := by simpa using ht
      exact ⟨fun _ => ⟨_, hpair⟩, by simp [Token.isOperator_of_isOperator ho]⟩
    | succ i =>
      rw [List.getElem?_cons_succ] at ht
      rcases lt_trichotomy i inner.length with hi | rfl | hi
      · -- among the contents
        rw [List.getElem?_append_left hi] at ht
        simpa [Nat.add_comm] using (ihin i t ht).within [opener] (closer :: ts)
      · obtain rfl : closer = t := by simpa using ht
        exact ⟨by simp [Token.isOperator_of_isOperator hc], fun _ => ⟨0, hpair⟩⟩
      · -- behind the group
        obtain ⟨k, rfl⟩ := Nat.exists_eq_add_of_lt hi
        have hrest : HasPartner ts k t := by
          apply ih
          rw [List.getElem?_append_right (by omega)] at ht
          simpa [Nat.add_assoc] using ht
        have hindex : (opener :: (inner ++ [closer])).length + k = inner.length + k + 1 + 1 := by
          simp
          omega
        have hwithin := hrest.within (opener :: (inner ++ [closer])) []
        rw [hindex] at hwithin
        simpa using hwithin

/-- a `)` right after balanced tokens closes none of their `(` -/
theorem not_matched_closer {pre rest : List Token} {closer : Token} (h : Balanced pre) (i : Nat) :
    ¬Matched (pre ++ closer :: rest) i pre.length := by
  intro hmatched
  obtain ⟨before, opener, inner, closer', after, heq, -, hlength, ho, -, hin⟩ := hmatched
  have hsplit : pre ++ closer :: rest = (before ++ opener :: inner) ++ closer' :: after := by simpa using heq
  obtain rfl : pre = before ++ opener :: inner := List.append_inj_left hsplit (by simp; omega)
  -- the tokens before the `(` would have to make up for it
  have hle := h.occurrences_le before (List.prefix_append _ _)
  have hsum := h.occurrences_eq
  have hinner := hin.occurrences_eq
  obtain ⟨hopen, hopen'⟩ := occurrences_opener ho inner
  rw [occurrences_append, occurrences_append, hopen, hopen'] at hsum
  omega

/-- a `(` right before balanced tokens is closed by none of their `)` -/
theorem not_matched_opener {before rest : List Token} {opener : Token} (h : Balanced rest) (j : Nat) :
    ¬Matched (before ++ opener :: rest) before.length j := by
  intro hmatched
  obtain ⟨before', opener', inner, closer, after, heq, hlength, -, -, hc, hin⟩ := hmatched
  obtain ⟨-, htail⟩ := List.append_inj heq hlength
  obtain ⟨-, rfl⟩ := List.cons.inj htail
  have hle := h.occurrences_le (inner ++ [closer]) ⟨after, by simp⟩
  have hinner := hin.occurrences_eq
  obtain ⟨hclose, hclose'⟩ := occurrences_closer hc []
  rw [occurrences_append, occurrences_append, hclose, hclose', occurrences_nil, occurrences_nil] at hle
  omega

theorem isLeast_unopened {pre rest : List Token} {closer : Token} (h : Balanced pre)
    (hc : closer.isOperator ")" = true) : IsLeast {i | Unopened (pre ++ closer :: rest) i} pre.length := by
  constructor
  · refine ⟨⟨closer, by simp, hc⟩, ?_⟩
    rintro ⟨i, hi⟩
    exact not_matched_closer h i hi
  · rintro i ⟨⟨t, ht, htc⟩, hnone⟩
    by_contra hlt
    rw [List.getElem?_append_left (not_le.1 hlt)] at ht
    apply hnone
    simpa using ((h.hasPartner i t ht).within [] (closer :: rest)).closer htc

theorem isGreatest_unclosed {before rest : List Token} {opener : Token} (h : Balanced rest)
    (ho : opener.isOperator "(" = true) : IsGreatest {i | Unclosed (before ++ opener :: rest) i} before.length := by
  constructor
  · refine ⟨⟨opener, by simp, ho⟩, ?_⟩
    rintro ⟨j, hj⟩
    exact not_matched_opener h j hj
  · rintro i ⟨⟨t, ht, hto⟩, hnone⟩
    by_contra hlt
    obtain ⟨k, rfl⟩ := Nat.exists_eq_add_of_lt (not_le.1 hlt)
    have hrest : rest[k]? = some t := by
      rw [List.getElem?_append_right (by omega)] at ht
      simpa [Nat.add_assoc] using ht
    have hindex : (before ++ [opener]).length + k = before.length + k + 1 := by
      simp
      omega
    have hwithin := (h.hasPartner k t hrest).within (before ++ [opener]) []
    rw [hindex] at hwithin
    apply hnone
    simpa using hwithin.opener hto

/-! ## Parsing -/

/-- an error while a token is read is about that token, or about a `(` with balanced tokens behind it -/
theorem Fails.token_or_unclosed {vars : List Variable} {ts : List Token} {e : ParseError} (h : Fails vars ts e) :
    (∃ t, Scope.tokenNode { vars } t = .error e) ∨
      ∃ before opener rest, ts = before ++ opener :: rest ∧ opener.isOperator "(" = true ∧ Balanced rest ∧
        e = .unclosedParen opener.position := by
  induction h with
  | token _ hn => exact .inl ⟨_, hn⟩
  | unclosed ho h => exact .inr ⟨[], _, _, rfl, ho, h.balanced, rfl⟩
  | @inside opener _ _ _ _ ih =>
    rcases ih with htoken | ⟨before, opener', rest, rfl, hunclosed⟩
    · exact .inl htoken
    · exact .inr ⟨opener :: before, opener', rest, rfl, hunclosed⟩
  | @arguments name _ _ _ _ _ _ ih =>
    rcases ih with htoken | ⟨before, opener', rest, heq, hunclosed⟩
    · exact .inl htoken
    · exact .inr ⟨name :: before, opener', rest, by rw [heq]; rfl, hunclosed⟩
  | @after _ head _ _ _ _ _ ih =>
    rcases ih with htoken | ⟨before, opener', rest, rfl, hunclosed⟩
    · exact .inl htoken
    · exact .inr ⟨head ++ before, opener', rest, by simp, hunclosed⟩

/-- **Parentheses.** If a token list parses, its parentheses are balanced: no prefix closes more often than it opens, and
the list closes as often as it opens. An error about tokens left over is about the first `)` without a `(`, and an error
about an open group is about the last `(` without a `)`. -/
theorem parse_parentheses (s : Scope) (ts : List Token) :
    (∀ t, s.parse ts = .ok t →
        occurrences ")" ts = occurrences "(" ts ∧ ∀ front, front <+: ts → occurrences ")" front ≤ occurrences "(" front) ∧
      (∀ stop total text position, s.parse ts = .error (.trailingTokens stop total text position) →
        total = ts.length ∧ text = ")" ∧ IsLeast {i | Unopened ts i} stop ∧
          ts[stop]?.map Token.position = some position) ∧
      ∀ position, s.parse ts = .error (.unclosedParen position) →
        ∃ i, IsGreatest {i | Unclosed ts i} i ∧ ts[i]?.map Token.position = some position := by
  refine ⟨?_, ?_, ?_⟩
  · intro t h
    obtain ⟨-, ns, hderives, -⟩ := parse_eq_ok_iff.1 h
    exact ⟨hderives.balanced.occurrences_eq, hderives.balanced.occurrences_le⟩
  · intro stop total text position h
    rcases Scope.parse_error rfl h with hfails | ⟨pre, closer, rest, depth, ns, rfl, hc, hderives, heq⟩
    · rcases hfails.token_or_unclosed with ⟨t, ht⟩ | ⟨_, _, _, _, _, _, heq⟩
      · rcases Scope.tokenNode_error ht with heq | heq | ⟨_, heq⟩ <;> cases heq
      · cases heq
    · obtain ⟨rfl, rfl, rfl, rfl⟩ := ParseError.trailingTokens.inj heq
      have htext : closer.text = ")" := by
        simp only [Token.isOperator, Bool.and_eq_true, beq_iff_eq] at hc
        exact hc.2
      exact ⟨rfl, htext, isLeast_unopened hderives.balanced hc, by simp⟩
  · intro position h
    rcases Scope.parse_error rfl h with hfails | ⟨_, _, _, _, _, _, _, _, heq⟩
    · rcases hfails.token_or_unclosed with ⟨t, ht⟩ | ⟨before, opener, rest, rfl, ho, hbalanced, heq⟩
      · rcases Scope.tokenNode_error ht with heq | heq | ⟨_, heq⟩ <;> cases heq
      · obtain rfl := ParseError.unclosedParen.inj heq
        exact ⟨before.length, isGreatest_unclosed hbalanced ho, by simp⟩
    · cases heq

/-- the tokens of `(1) ) (2` -/
def strayCloser : List Token :=
  [⟨.operator, "(", ⟨0, 1, 1⟩⟩, ⟨.number, "1", ⟨1, 1, 2⟩⟩, ⟨.operator, ")", ⟨2, 1, 3⟩⟩, ⟨.operator, ")", ⟨4, 1, 5⟩⟩,
    ⟨.operator, "(", ⟨6, 1, 7⟩⟩, ⟨.number, "2", ⟨7, 1, 8⟩⟩]

/-- the tokens of `((1) ABS(2` -/
def openGroups : List Token :=
  [⟨.operator, "(", ⟨0, 1, 1⟩⟩, ⟨.operator, "(", ⟨1, 1, 2⟩⟩, ⟨.number, "1", ⟨2, 1, 3⟩⟩, ⟨.operator, ")", ⟨3, 1, 4⟩⟩,
    ⟨.ident, "ABS", ⟨5, 1, 6⟩⟩, ⟨.operator, "(", ⟨8, 1, 9⟩⟩, ⟨.number, "2", ⟨9, 1, 10⟩⟩]

/-- a group that is closed parses by itself, the second `)` of `(1) ) (2` is blamed before its open `(`, and in `((1) ABS(2`
the inner one of two open groups is blamed -/
theorem parse_parentheses_unbalanced :
    Scope.parse {} (strayCloser.take 3) = .ok (.number "1.000000") ∧
      occurrences ")" (strayCloser.take 3) = occurrences "(" (strayCloser.take 3) ∧
      Scope.parse {} strayCloser = .error (.trailingTokens 3 6 ")" ⟨4, 1, 5⟩) ∧
      IsLeast {i | Unopened strayCloser i} 3 ∧
      Scope.parse {} openGroups = .error (.unclosedParen ⟨8, 1, 9⟩) ∧
      ∃ i, IsGreatest {i | Unclosed openGroups i} i ∧ openGroups[i]?.map Token.position = some ⟨8, 1, 9⟩ := by
  have hclosed : Scope.parse {} (strayCloser.take 3) = .ok (.number "1.000000") := by decide +kernel
  have hstray : Scope.parse {} strayCloser = .error (.trailingTokens 3 6 ")" ⟨4, 1, 5⟩) := by decide +kernel
  have hopen : Scope.parse {} openGroups = .error (.unclosedParen ⟨8, 1, 9⟩) := by decide +kernel
  obtain ⟨hbalanced, -, -⟩ := parse_parentheses {} (strayCloser.take 3)
  obtain ⟨-, htrailing, -⟩ := parse_parentheses {} strayCloser
  obtain ⟨-, -, hunclosed⟩ := parse_parentheses {} openGroups
  obtain ⟨-, -, hleast, -⟩ := htrailing 3 6 ")" ⟨4, 1, 5⟩ hstray
  exact ⟨hclosed, (hbalanced _ hclosed).1, hstray, hleast, hopen, hunclosed _ hopen⟩

end Formula
