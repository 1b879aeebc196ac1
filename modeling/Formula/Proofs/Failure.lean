/-
Where parsing fails.

Some errors point at a place (`ParseError.position?`). Each of them is raised at one token, when all tokens before it have
been read. `Fails vars ts e` says how reading gets to that token: past what can be read by itself, and into groups and the
arguments of calls. Errors that are raised while folding, about a missing operand or about nesting, point at no place.

`Scope.parse_error`: every error that points at a place comes about in this way, or it is about a `)` that closes nothing,
when all tokens before that have been read.
-/
import Mathlib.Tactic
import Formula.Proofs.Derivation

namespace Formula

/-! ## Errors without a place -/

section Placeless

variable {limit : Nat} {operators : List String} {e : ParseError}

theorem combine_error {operator : String} {left right : Entry}
    (h : (combine limit operator left right).outcome = .error e) : e.position? = none := by
  simp only [combine] at h
  split_ifs at h
  · obtain rfl := Except.error.inj h
    rfl
  · cases h

theorem foldFrom_error {left : Entry} {es : List Entry} (h : (foldFrom limit operators left es).outcome = .error e) :
    e.position? = none := by
  fun_induction foldFrom limit operators left es with
  | case1 left => cases h
  | case2 left op hop =>
    obtain rfl := Except.error.inj h
    rfl
  | case3 left op hop right rest ih =>
    rw [Traced.outcome_bind] at h
    rcases bind_eq_error_iff.1 h with h | ⟨whole, -, h⟩
    · exact combine_error h
    · exact ih whole h
  | case4 left first rest hfirst ih =>
    rw [Traced.outcome_bind] at h
    rcases bind_eq_error_iff.1 h with h | ⟨folded, -, h⟩
    · exact ih h
    · cases h

theorem foldLevel_error {es : List Entry} (h : (foldLevel limit operators es).outcome = .error e) :
    e.position? = none := by
  cases es with
  | nil => cases h
  | cons first rest =>
    rw [foldLevel] at h
    split_ifs at h
    · obtain rfl := Except.error.inj h
      rfl
    · exact foldFrom_error h

/-- **Folding points at no place** -/
theorem foldLevels_error {levels : List (List String)} {es : List Entry}
    (h : (foldLevels limit levels es).outcome = .error e) : e.position? = none := by
  induction levels generalizing es with
  | nil => cases h
  | cons operators levels ih =>
    rw [foldLevels, Traced.outcome_bind] at h
    rcases bind_eq_error_iff.1 h with h | ⟨folded, -, h⟩
    · exact foldLevel_error h
    · exact ih h

theorem Scope.callEntry_error {s : Scope} {name : String} {args : List Entry}
    (h : (s.callEntry name args).outcome = .error e) : e.position? = none := by
  rw [callEntry, Traced.outcome_bind] at h
  rcases bind_eq_error_iff.1 h with h | ⟨_, -, h⟩
  · cases h
  · simp only at h
    split_ifs at h
    obtain rfl := Except.error.inj h
    rfl

end Placeless

/-! ## One item -/

namespace Scope

variable {s : Scope} {depth : Nat} {t name : Token} {g : Group} {items : List Item} {e : ParseError}

theorem numberLeaf_eq_error_iff {text : String} {p : Position} :
    numberLeaf text p = .error e ↔ canonicalize text = none ∧ e = .invalidNumber text p := by
  unfold numberLeaf
  cases canonicalize text with
  | none => simp [eq_comm]
  | some canonical => simp

theorem variableLeaf_error (h : s.variableLeaf t = .error e) :
    e = .undefinedIdentifier t.text t.position ∨ ∃ text, e = .invalidNumber text t.position := by
  unfold variableLeaf at h
  split at h
  · exact .inl (Except.error.inj h).symm
  · split at h
    · exact .inr ⟨_, (numberLeaf_eq_error_iff.1 h).2⟩
    · cases h

/-- a single token fails for a missing argument list, for its name or for its number, at its own place -/
theorem tokenNode_error (h : s.tokenNode t = .error e) :
    e = .expectedParen t.text t.position ∨ e = .undefinedIdentifier t.text t.position ∨
      ∃ text, e = .invalidNumber text t.position := by
  unfold tokenNode at h
  split at h
  · split_ifs at h
    · exact .inl (Except.error.inj h).symm
    · exact .inr (variableLeaf_error h)
  · exact .inr (variableLeaf_error h)
  · exact .inr (.inr ⟨_, (numberLeaf_eq_error_iff.1 h).2⟩)
  · cases h
  · cases h
  · cases h

theorem entries_token_error (ht : t.isOperator "," = false)
    (h : (s.entries depth (.token t :: items)).outcome = .error e) :
    s.tokenNode t = .error e ∨ ∃ n, s.tokenNode t = .ok n ∧ (s.entries depth items).outcome = .error e := by
  rw [entries, if_neg (by simp [ht])] at h
  simp only [Traced.outcome_bind, Traced.outcome_ofExcept] at h
  rcases bind_eq_error_iff.1 h with h | ⟨n, hn, h⟩
  · exact .inl h
  · rcases bind_eq_error_iff.1 h with h | ⟨more, -, h⟩
    · exact .inr ⟨n, hn, h⟩
    · cases h

theorem entries_group_error (h : (s.entries depth (.group g :: items)).outcome = .error e) :
    (s.groupEntries depth g).outcome = .error e ∨
      ∃ inner, (s.groupEntries depth g).outcome = .ok inner ∧ (s.entries depth items).outcome = .error e := by
  rw [entries] at h
  simp only [Traced.outcome_bind] at h
  rcases bind_eq_error_iff.1 h with h | ⟨inner, hinner, h⟩
  · exact .inl h
  · rcases bind_eq_error_iff.1 h with h | ⟨more, -, h⟩
    · exact .inr ⟨inner, hinner, h⟩
    · cases h

theorem entries_call_error (h : (s.entries depth (.call name g :: items)).outcome = .error e) :
    (s.groupEntries depth g).outcome = .error e ∨
      ∃ args, (s.groupEntries depth g).outcome = .ok args ∧
        ((s.callEntry name.text args).outcome = .error e ∨ (s.entries depth items).outcome = .error e) := by
  rw [entries] at h
  simp only [Traced.outcome_bind] at h
  rcases bind_eq_error_iff.1 h with h | ⟨args, hargs, h⟩
  · exact .inl h
  · refine .inr ⟨args, hargs, ?_⟩
    rcases bind_eq_error_iff.1 h with h | ⟨entry, -, h⟩
    · exact .inl h
    · rcases bind_eq_error_iff.1 h with h | ⟨more, -, h⟩
      · exact .inr h
      · cases h

/-- a group fails at a place because its contents do, or because it is not closed -/
theorem groupEntries_error {opener : Token} {body : List Item} {closer? : Option Token} (hplace : e.position?.isSome)
    (h : (s.groupEntries depth ⟨opener, body, closer?⟩).outcome = .error e) :
    depth + 1 ≤ s.maxDepth ∧
      ((s.entries (depth + 1) body).outcome = .error e ∨
        (∃ inner, (s.entries (depth + 1) body).outcome = .ok inner) ∧ closer? = none ∧
          e = .unclosedParen opener.position) := by
  rw [groupEntries] at h
  split_ifs at h with hdepth
  · obtain rfl := Except.error.inj h
    cases hplace
  · refine ⟨not_lt.1 hdepth, ?_⟩
    simp only [Traced.outcome_bind] at h
    rcases bind_eq_error_iff.1 h with h | ⟨inner, hinner, h⟩
    · exact .inl h
    · rcases bind_eq_error_iff.1 h with h | ⟨folded, -, h⟩
      · rw [foldLevels_error h] at hplace
        cases hplace
      · cases closer? with
        | none => exact .inr ⟨⟨inner, hinner⟩, rfl, (Except.error.inj h).symm⟩
        | some closer => cases h

end Scope

/-! ## The relation -/

/-- reading the tokens comes to an error at one of them -/
inductive Fails (vars : List Variable) : List Token → ParseError → Prop where
  | token {t : Token} {ts : List Token} {e : ParseError}
      (hcall : t.isFunction = true → ∀ u ∈ ts.head?, u.isOperator "(" = false)
      (hn : Scope.tokenNode { vars } t = .error e) : Fails vars (t :: ts) e
  | unclosed {opener : Token} {depth : Nat} {ts : List Token} {ns : List Node} (ho : opener.isOperator "(" = true)
      (h : Derives vars depth ts ns) : Fails vars (opener :: ts) (.unclosedParen opener.position)
  | inside {opener : Token} {ts : List Token} {e : ParseError} (ho : opener.isOperator "(" = true) (h : Fails vars ts e) :
      Fails vars (opener :: ts) e
  | arguments {name opener : Token} {ts : List Token} {e : ParseError} (hname : name.isFunction = true)
      (ho : opener.isOperator "(" = true) (h : Fails vars (opener :: ts) e) : Fails vars (name :: opener :: ts) e
  | after {depth : Nat} {head ts : List Token} {ns : List Node} {e : ParseError} (hhead : Derives vars depth head ns)
      (h : Fails vars ts e) : Fails vars (head ++ ts) e

/-- an error about anything but an open group is about one of the tokens -/
theorem Fails.exists_token {vars : List Variable} {ts : List Token} {e : ParseError} (h : Fails vars ts e)
    (hopen : ∀ p, e ≠ .unclosedParen p) : ∃ t ∈ ts, Scope.tokenNode { vars } t = .error e := by
  induction h with
  | token _ hn => exact ⟨_, List.mem_cons_self, hn⟩
  | unclosed _ _ => exact absurd rfl (hopen _)
  | inside _ _ ih =>
    obtain ⟨t, ht, hn⟩ := ih hopen
    exact ⟨t, List.mem_cons_of_mem _ ht, hn⟩
  | arguments _ _ _ ih =>
    obtain ⟨t, ht, hn⟩ := ih hopen
    exact ⟨t, List.mem_cons_of_mem _ ht, hn⟩
  | after _ _ ih =>
    obtain ⟨t, ht, hn⟩ := ih hopen
    exact ⟨t, List.mem_append_right _ ht, hn⟩

/-- an error at a place, raised while the outline of these tokens is read, comes about at one of the tokens -/
def FailsOutline (s : Scope) (ts : List Token) : Prop :=
  ∀ depth e, depth ≤ s.maxDepth → e.position?.isSome → (s.entries depth (Outline.of ts).items).outcome = .error e →
    Fails s.vars ts e

/-- a group that cannot be read fails inside, or it is open to the end -/
theorem Scope.fails_group {s : Scope} {opener : Token} {rest : List Token} {depth : Nat} {e : ParseError}
    (ho : opener.isOperator "(" = true) (ih : FailsOutline s rest) (hplace : e.position?.isSome)
    (h : (s.groupEntries depth
      ⟨opener, (Outline.of rest).items, (Outline.of rest).breaks.head?.map Break.closer⟩).outcome = .error e) :
    Fails s.vars (opener :: rest) e := by
  obtain ⟨hdepth, hbody | ⟨⟨inner, hinner⟩, hopen, rfl⟩⟩ := groupEntries_error hplace h
  · exact .inside ho (ih _ e hdepth hplace hbody)
  · obtain ⟨pre, ns, -, hderives, -, hends⟩ := s.readsOutline rest _ inner hdepth hinner
    have hbreaks : (Outline.of rest).breaks = [] := by
      rw [Option.map_eq_none_iff, List.head?_eq_none_iff] at hopen
      exact hopen
    rw [hbreaks] at hends
    cases hends
    exact .unclosed ho hderives

namespace FailsOutline

variable {s : Scope} {t name opener : Token} {rest : List Token}

theorem nil : FailsOutline s [] := by
  intro depth e _ _ h
  simp [Outline.of, Scope.entries] at h

theorem closer (hc : t.isOperator ")" = true) : FailsOutline s (t :: rest) := by
  intro depth e _ _ h
  simp [Outline.of_closer hc, Scope.entries] at h

theorem group (ho : opener.isOperator "(" = true) (ih : ∀ us, us.length ≤ rest.length → FailsOutline s us) :
    FailsOutline s (opener :: rest) := by
  intro depth e hdepth hplace h
  obtain ⟨items, breaks, hof⟩ := Outline.exists_group ho rest
  rw [hof] at h
  rcases Scope.entries_group_error h with hgroup | ⟨inner, hinner, hrest⟩
  · exact Scope.fails_group ho (ih rest le_rfl) hplace hgroup
  · obtain ⟨pre, closer, after, mid, folded, d, rfl, hc, hafter, hd, hderives, hfolds, -, -⟩ :=
      Scope.group_ok ho (s.readsOutline rest) hof hinner
    have hfails : Fails s.vars after e :=
      ih after (by simp; omega) depth e hdepth hplace (by rw [hafter]; exact hrest)
    have hhead : Derives s.vars (d + 1) (opener :: (pre ++ [closer])) (folded ++ []) :=
      .group ho hc hderives hfolds (.nil _)
    simpa using Fails.after hhead hfails

theorem call (hname : name.isFunction = true) (ho : opener.isOperator "(" = true)
    (ih : ∀ us, us.length ≤ rest.length → FailsOutline s us) : FailsOutline s (name :: opener :: rest) := by
  intro depth e hdepth hplace h
  obtain ⟨items, breaks, hof⟩ := Outline.exists_group ho rest
  rw [Outline.of_function hname, hof, Outline.pushToken_group hname] at h
  rcases Scope.entries_call_error h with hgroup | ⟨args, hargs, hcall | hrest⟩
  · exact .arguments hname ho (Scope.fails_group ho (ih rest le_rfl) hplace hgroup)
  · rw [Scope.callEntry_error hcall] at hplace
    cases hplace
  · obtain ⟨pre, closer, after, mid, folded, d, rfl, hc, hafter, hd, hderives, hfolds, -, -⟩ :=
      Scope.group_ok ho (s.readsOutline rest) hof hargs
    have hfails : Fails s.vars after e :=
      ih after (by simp; omega) depth e hdepth hplace (by rw [hafter]; exact hrest)
    have hhead : Derives s.vars (d + 1) (name :: opener :: (pre ++ [closer])) [.call name.text folded] :=
      .call hname ho hc hderives hfolds (.nil _)
    simpa using Fails.after hhead hfails

theorem single (ho : t.isOperator "(" = false) (hc : t.isOperator ")" = false)
    (hcall : t.isFunction = true → ∀ u ∈ rest.head?, u.isOperator "(" = false) (ih : FailsOutline s rest) :
    FailsOutline s (t :: rest) := by
  intro depth e hdepth hplace h
  rw [Outline.of_single ho hc hcall] at h
  cases hcomma : t.isOperator "," with
  | true =>
    rw [Scope.entries_comma hcomma] at h
    exact .after (.comma hcomma (.nil 0)) (ih depth e hdepth hplace h)
  | false =>
    rcases Scope.entries_token_error hcomma h with hn | ⟨n, hn, hrest⟩
    · exact .token hcall hn
    · have hplain : t.isPunctuation = false := by simp [Token.isPunctuation, ho, hc, hcomma]
      exact .after (.token hplain hn (.nil 0)) (ih depth e hdepth hplace hrest)

end FailsOutline

/-- **An error at a place comes about at a token** -/
theorem Scope.failsOutline (s : Scope) (ts : List Token) : FailsOutline s ts := by
  refine tokens_induction .nil ?_ ?_ ?_ ?_ ts
  · exact fun t rest hc => .closer hc
  · exact fun opener rest ho ih => .group ho ih
  · exact fun name opener rest hname ho ih => .call hname ho ih
  · exact fun t rest ho hc hcall ih => .single ho hc hcall ih

/-! ## Whole token lists -/

/-- **Where parsing fails.** An error that points at a place is raised while a token is read, or it is about the first token
that is left over, a `)` with all tokens before it read. -/
theorem Scope.parse_error {s : Scope} {ts : List Token} {e : ParseError} (hplace : e.position?.isSome)
    (h : s.parse ts = .error e) :
    Fails s.vars ts e ∨
      ∃ pre closer rest depth ns, ts = pre ++ closer :: rest ∧ closer.isOperator ")" = true ∧
        Derives s.vars depth pre ns ∧ e = .trailingTokens pre.length ts.length closer.text closer.position := by
  unfold parse trace at h
  simp only [Traced.outcome_bind, Traced.outcome_report] at h
  rcases bind_eq_error_iff.1 h with h | ⟨_, -, h⟩
  · cases h
  rcases bind_eq_error_iff.1 h with h | ⟨es, hes, h⟩
  · exact .inl (s.failsOutline ts 0 e (Nat.zero_le _) hplace h)
  rcases bind_eq_error_iff.1 h with h | ⟨folded, -, h⟩
  · rw [foldLevels_error h] at hplace
    cases hplace
  obtain ⟨pre, ns, -, hderives, -, hends⟩ := s.readsOutline ts 0 es (Nat.zero_le _) hes
  generalize hbreaks : (Outline.of ts).breaks = breaks at h hends
  cases hends with
  | whole =>
    rw [Traced.outcome_ofExcept] at h
    unfold single at h
    split at h
    · cases h
    · obtain rfl := Except.error.inj h
      cases hplace
  | stop _ b hc _ =>
    have hlength : (pre ++ b.closer :: b.rest).length - (b.rest.length + 1) = pre.length := by
      simp
    obtain rfl := Except.error.inj h
    exact .inr ⟨pre, b.closer, b.rest, _, ns, rfl, hc, hderives, by rw [hlength]⟩

end Formula
