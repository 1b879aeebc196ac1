/-
Commas only separate.

A comma is an item of its own wherever it stands, and reading passes over it. Leaving one out changes the outline in that
place only (`Outline.of_fewerCommas`), with one exception: behind a function name it would let the name reach a `(` that
follows. So the entries stay the same (`Scope.entries_fewerCommas`), and of the errors only that about tokens left over
shows the difference, because it counts tokens.

`parse_comma`: a comma that does not follow a function name may be left out.
-/
import Mathlib.Tactic
import Formula.Proofs.Failure

namespace Formula

/-! ## Outlines -/

/-- the same items with some commas left out -/
inductive FewerCommas : List Item → List Item → Prop where
  | nil : FewerCommas [] []
  | comma {t : Token} {items items' : List Item} (ht : t.isOperator "," = true) (h : FewerCommas items items') :
      FewerCommas (.token t :: items) items'
  | token (t : Token) {items items' : List Item} (h : FewerCommas items items') :
      FewerCommas (.token t :: items) (.token t :: items')
  | group (opener : Token) (closer? : Option Token) {body body' items items' : List Item} (hbody : FewerCommas body body')
      (h : FewerCommas items items') :
      FewerCommas (.group ⟨opener, body, closer?⟩ :: items) (.group ⟨opener, body', closer?⟩ :: items')
  | call (name opener : Token) (closer? : Option Token) {body body' items items' : List Item}
      (hbody : FewerCommas body body') (h : FewerCommas items items') :
      FewerCommas (.call name ⟨opener, body, closer?⟩ :: items) (.call name ⟨opener, body', closer?⟩ :: items')

theorem FewerCommas.refl : (items : List Item) → FewerCommas items items
  | [] => .nil
  | .token t :: items => .token t (refl items)
  | .group ⟨opener, body, closer?⟩ :: items => .group opener closer? (refl body) (refl items)
  | .call name ⟨opener, body, closer?⟩ :: items => .call name opener closer? (refl body) (refl items)

/-- the same break, when a comma is left out with `n` tokens behind it: if the break comes first, one token less is left -/
structure FewerCommas.AtBreak (n : Nat) (b b' : Break) : Prop where
  closer : b'.closer = b.closer
  items : FewerCommas b.items b'.items
  rest : b.rest.length = b'.rest.length + 1 ∧ n ≤ b'.rest.length ∨ b.rest.length = b'.rest.length ∧ b.rest.length < n

/-- the same outline, when a comma is left out with `n` tokens behind it -/
structure FewerCommas.InOutline (n : Nat) (o o' : Outline) : Prop where
  items : FewerCommas o.items o'.items
  breaks : List.Forall₂ (FewerCommas.AtBreak n) o.breaks o'.breaks

namespace Outline

/-- a comma is an item by itself -/
theorem of_comma {comma : Token} (h : comma.isOperator "," = true) (ts : List Token) :
    of (comma :: ts) = ⟨.token comma :: (of ts).items, (of ts).breaks⟩ := by
  have ho : comma.isOperator "(" = false := by rw [Token.isOperator_of_isOperator h]; decide
  have hc : comma.isOperator ")" = false := by rw [Token.isOperator_of_isOperator h]; decide
  refine of_single ho hc fun hf => ?_
  rw [Token.isOperator_of_isFunction hf] at h
  cases h

theorem breaks_openGroup (t : Token) (o : Outline) : (openGroup t o).breaks = o.breaks.tail := by
  unfold openGroup
  split
  · rename_i hnil
    rw [hnil]
    rfl
  · rename_i b breaks hcons
    rw [hcons]
    rfl

theorem breaks_pushToken (t : Token) (o : Outline) : (pushToken t o).breaks = o.breaks := by
  unfold pushToken
  split <;> rfl

/-- what is left behind a break is shorter than the tokens -/
theorem length_break (ts : List Token) : ∀ b ∈ (of ts).breaks, b.rest.length < ts.length := by
  induction ts with
  | nil => simp [of]
  | cons t ts ih =>
    have hrest : ∀ b ∈ (of ts).breaks, b.rest.length < (t :: ts).length := by
      intro b hb
      exact (ih b hb).trans (Nat.lt_succ_self _)
    cases ho : t.isOperator "(" with
    | true =>
      rw [of_opener ho, breaks_openGroup]
      exact fun b hb => hrest b (List.mem_of_mem_tail hb)
    | false =>
      cases hc : t.isOperator ")" with
      | true =>
        rw [of_closer hc]
        exact List.forall_mem_cons.2 ⟨Nat.lt_succ_self _, hrest⟩
      | false =>
        rw [of_other ho hc, breaks_pushToken]
        exact hrest

end Outline

namespace FewerCommas.InOutline

variable {n : Nat} {o o' : Outline}

theorem openGroup (t : Token) (h : InOutline n o o') : InOutline n (o.openGroup t) (o'.openGroup t) := by
  obtain ⟨items, breaks⟩ := o
  obtain ⟨items', breaks'⟩ := o'
  obtain ⟨hitems, hbreaks⟩ := h
  cases hbreaks with
  | nil => exact ⟨.group t none hitems .nil, .nil⟩
  | @cons b b' _ _ hb hbreaks =>
    simp only [Outline.openGroup, hb.closer]
    exact ⟨.group t (some b.closer) hitems hb.items, hbreaks⟩

/-- a function name takes the group behind it in both outlines -/
theorem call (name : Token) {g g' : Group} {items items' : List Item} {breaks breaks' : List Break}
    (h : InOutline n ⟨.group g :: items, breaks⟩ ⟨.group g' :: items', breaks'⟩) :
    InOutline n ⟨.call name g :: items, breaks⟩ ⟨.call name g' :: items', breaks'⟩ := by
  obtain ⟨hitems, hbreaks⟩ := h
  cases hitems with
  | group opener closer? hbody hitems => exact ⟨.call name opener closer? hbody hitems, hbreaks⟩

end FewerCommas.InOutline

/-- **A comma left out**: unless it follows a function name, the outline misses this comma and is the same otherwise -/
theorem Outline.of_fewerCommas {pre rest : List Token} {comma : Token} (hcomma : comma.isOperator "," = true)
    (hpre : ∀ t ∈ pre.getLast?, t.isFunction = false) :
    FewerCommas.InOutline rest.length (of (pre ++ comma :: rest)) (of (pre ++ rest)) := by
  induction pre with
  | nil =>
    rw [List.nil_append, List.nil_append, of_comma hcomma]
    refine ⟨.comma hcomma (.refl _), List.forall₂_same.2 ?_⟩
    exact fun b hb => ⟨rfl, .refl _, .inr ⟨rfl, length_break rest b hb⟩⟩
  | cons t pre ih =>
    have hlast : ∀ u ∈ pre.getLast?, u.isFunction = false := by
      intro u hu
      refine hpre u ?_
      rw [List.getLast?_cons, Option.mem_def.1 hu]
      rfl
    replace ih := ih hlast
    rw [List.cons_append, List.cons_append]
    cases ho : t.isOperator "(" with
    | true =>
      rw [of_opener ho, of_opener ho]
      exact ih.openGroup t
    | false =>
      cases hc : t.isOperator ")" with
      | true =>
        rw [of_closer hc, of_closer hc]
        refine ⟨.nil, .cons ⟨rfl, ih.items, .inl ⟨?_, ?_⟩⟩ ih.breaks⟩
        · simp only [List.length_append, List.length_cons]
          omega
        · simp
      | false =>
        by_cases hcall : t.isFunction = true → ∀ u ∈ pre.head?, u.isOperator "(" = false
        · -- whatever follows `pre`, the token does not reach a `(`: it is not a function name if nothing is between
          have hcall' : ∀ more : List Token,
              t.isFunction = true → ∀ u ∈ (pre ++ more).head?, u.isOperator "(" = false := by
            intro more hf
            cases pre with
            | nil => simp [hpre t rfl] at hf
            | cons u pre => exact hcall hf
          rw [of_single ho hc (hcall' _), of_single ho hc (hcall' _)]
          exact ⟨.token t ih.items, ih.breaks⟩
        · push Not at hcall
          obtain ⟨hname, opener, hhead, hopener⟩ := hcall
          obtain ⟨pre, rfl⟩ := List.head?_eq_some_iff.1 hhead
          obtain ⟨items, breaks, hof⟩ := exists_group (by simpa using hopener) (pre ++ comma :: rest)
          obtain ⟨items', breaks', hof'⟩ := exists_group (by simpa using hopener) (pre ++ rest)
          rw [List.cons_append, List.cons_append, hof, hof'] at ih
          rw [of_function hname, of_function hname, List.cons_append, List.cons_append, hof, hof', pushToken_group hname,
            pushToken_group hname]
          exact ih.call t

/-! ## Parsing -/

/-- **Commas add no entry** -/
theorem Scope.entries_fewerCommas {s : Scope} {items items' : List Item} (h : FewerCommas items items') (depth : Nat) :
    s.entries depth items' = s.entries depth items := by
  induction h generalizing depth with
  | nil => rfl
  | comma ht _ ih => rw [entries_comma ht, ih]
  | token t _ ih => rw [entries, entries, ih]
  | group opener closer? _ _ ihbody ih => rw [entries, entries, groupEntries, groupEntries, ihbody, ih]
  | call name opener closer? _ _ ihbody ih => rw [entries, entries, groupEntries, groupEntries, ihbody, ih]

namespace ParseError

/-- the error for the same tokens without the one at index `i`: an error about tokens left over counts them -/
def without (i : Nat) : ParseError → ParseError
  | .trailingTokens stop total token position =>
    .trailingTokens (if i < stop then stop - 1 else stop) (total - 1) token position
  | e => e

theorem without_of_placeless {e : ParseError} (h : e.position? = none) (i : Nat) : e.without i = e := by
  cases e with
  | trailingTokens => cases h
  | _ => rfl

end ParseError

theorem Fails.without {vars : List Variable} {ts : List Token} {e : ParseError} (h : Fails vars ts e) (i : Nat) :
    e.without i = e := by
  induction h with
  | token _ hn =>
    rcases Scope.tokenNode_error hn with rfl | rfl | ⟨text, rfl⟩
    · rfl
    · rfl
    · rfl
  | unclosed => rfl
  | inside _ _ ih => exact ih
  | arguments _ _ _ ih => exact ih
  | after _ _ ih => exact ih

/-- no error that is raised while tokens are read counts them -/
theorem Scope.entries_error_without {s : Scope} {ts : List Token} {e : ParseError}
    (h : (s.entries 0 (Outline.of ts).items).outcome = .error e) (i : Nat) : e.without i = e := by
  cases hplace : e.position? with
  | none => exact e.without_of_placeless hplace i
  | some p => exact (s.failsOutline ts 0 e (Nat.zero_le _) (by simp [hplace]) h).without i

theorem mapError_bind {ε α β : Type} {f : ε → ε} {x : Except ε α} {g g' : α → Except ε β}
    (hx : ∀ e, x = .error e → f e = e) (hg : ∀ a, (g a).mapError f = g' a) : (x >>= g).mapError f = x >>= g' := by
  cases x with
  | error e => exact congrArg Except.error (hx e rfl)
  | ok a => exact hg a

/-- **Commas carry no structure.** A comma that does not directly follow a function name can be left out: the tokens parse
to the same tree or to the same error. Only an error about tokens left over shows that there is one token less: in their
number, and in the index of the first that is left if the comma came before it. -/
theorem parse_comma (s : Scope) (pre rest : List Token) {comma : Token} (hcomma : comma.isOperator "," = true)
    (hpre : ∀ t ∈ pre.getLast?, t.isFunction = false) :
    s.parse (pre ++ rest) = (s.parse (pre ++ comma :: rest)).mapError (ParseError.without pre.length) := by
  have houtline : FewerCommas.InOutline rest.length _ _ := Outline.of_fewerCommas hcomma hpre
  obtain ⟨hitems, hbreaks⟩ := houtline
  unfold Scope.parse Scope.trace
  simp only [Traced.outcome_bind, Traced.outcome_report, Scope.entries_fewerCommas hitems]
  symm
  refine mapError_bind nofun fun _ => ?_
  refine mapError_bind (fun e he => Scope.entries_error_without he _) fun es => ?_
  refine mapError_bind (fun e he => e.without_of_placeless (foldLevels_error he) _) fun folded => ?_
  generalize (Outline.of (pre ++ comma :: rest)).breaks = breaks at hbreaks
  generalize (Outline.of (pre ++ rest)).breaks = breaks' at hbreaks
  cases hbreaks with
  | nil =>
    simp only [Traced.outcome_ofExcept]
    unfold Scope.single
    split <;> rfl
  | @cons b b' _ _ hb _ =>
    have hlength : (pre ++ comma :: rest).length = pre.length + rest.length + 1 := by
      simp only [List.length_append, List.length_cons]
      omega
    simp only [Traced.outcome_fail, Except.mapError, ParseError.without, hb.closer, hlength, List.length_append]
    congr 2
    rcases hb.rest with ⟨hrest, hbefore⟩ | ⟨hrest, hbehind⟩
    · rw [if_neg (by omega)]
      omega
    · rw [if_pos (by omega)]
      omega

/-- two arguments, and a `)` that closes nothing between two commas -/
def separated : List Token :=
  [⟨.ident, "MAX", ⟨0, 1, 1⟩⟩, ⟨.operator, "(", ⟨3, 1, 4⟩⟩, ⟨.number, "1", ⟨4, 1, 5⟩⟩, ⟨.operator, ",", ⟨5, 1, 6⟩⟩,
    ⟨.number, "2", ⟨6, 1, 7⟩⟩, ⟨.operator, ")", ⟨7, 1, 8⟩⟩, ⟨.operator, ",", ⟨8, 1, 9⟩⟩, ⟨.operator, ")", ⟨9, 1, 10⟩⟩,
    ⟨.operator, ",", ⟨10, 1, 11⟩⟩]

/-- without its comma the call has the same arguments; without a comma in front of the `)` the error has a smaller index and
a smaller total, and without the comma behind it only a smaller total -/
theorem parse_comma_separated :
    Scope.parse {} (separated.take 6) = .ok (.call "MAX" [.number "1.000000", .number "2.000000"]) ∧
      Scope.parse {} ((separated.take 6).eraseIdx 3) = .ok (.call "MAX" [.number "1.000000", .number "2.000000"]) ∧
      Scope.parse {} separated = .error (.trailingTokens 7 9 ")" ⟨9, 1, 10⟩) ∧
      Scope.parse {} (separated.eraseIdx 3) = .error (.trailingTokens 6 8 ")" ⟨9, 1, 10⟩) ∧
      Scope.parse {} (separated.eraseIdx 8) = .error (.trailingTokens 7 8 ")" ⟨9, 1, 10⟩) := by
  have hcall : Scope.parse {} (separated.take 6) = .ok (.call "MAX" [.number "1.000000", .number "2.000000"]) := by
    decide +kernel
  have hstop : Scope.parse {} separated = .error (.trailingTokens 7 9 ")" ⟨9, 1, 10⟩) := by decide +kernel
  have hcomma (p : Position) : Token.isOperator ⟨.operator, ",", p⟩ "," = true := rfl
  have hone : ∀ t ∈ (separated.take 3).getLast?, t.isFunction = false := by decide +kernel
  have hcloser : ∀ t ∈ (separated.take 8).getLast?, t.isFunction = false := by decide +kernel
  refine ⟨hcall, ?_, hstop, ?_, ?_⟩
  · exact (parse_comma {} (separated.take 3) ((separated.take 6).drop 4) (hcomma _) hone).trans (congrArg _ hcall)
  · exact (parse_comma {} (separated.take 3) (separated.drop 4) (hcomma _) hone).trans (congrArg _ hstop)
  · exact (parse_comma {} (separated.take 8) [] (hcomma _) hcloser).trans (congrArg _ hstop)

-- a comma behind a function name keeps it from its arguments
example :
    Scope.parse {} [⟨.ident, "ABS", ⟨0, 1, 1⟩⟩, ⟨.operator, ",", ⟨3, 1, 4⟩⟩, ⟨.operator, "(", ⟨4, 1, 5⟩⟩,
        ⟨.number, "1", ⟨5, 1, 6⟩⟩, ⟨.operator, ")", ⟨6, 1, 7⟩⟩] = .error (.expectedParen "ABS" ⟨0, 1, 1⟩) ∧
      Scope.parse {} [⟨.ident, "ABS", ⟨0, 1, 1⟩⟩, ⟨.operator, "(", ⟨4, 1, 5⟩⟩, ⟨.number, "1", ⟨5, 1, 6⟩⟩,
        ⟨.operator, ")", ⟨6, 1, 7⟩⟩] = .ok (.call "ABS" [.number "1.000000"]) := by
  decide +kernel

end Formula
