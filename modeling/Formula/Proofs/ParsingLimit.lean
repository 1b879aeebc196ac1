/-
What the nesting limit does to parsing.

The parser compares with its limit in three places: where it enters a group, where it builds a call and where it folds an
operator. A check that passes under a limit passes under every larger one, so parsing under the smaller limit goes the
same way as under the larger one until a check stops it (`CutsOff`), also where it ends in another error.

How large a limit has to be can be read off the tokens and the tree: the groups of a derivation are nested exactly as deep
as the parentheses of its tokens (`Derives.nesting_le`), and every tree built on the way is part of the final one.

`parse_limit`: a limit only cuts off, and does so exactly below the nesting of the parentheses and the levels of the tree.
-/
import Mathlib.Tactic
import Formula.Proofs.Derivation

namespace Formula

/-! ## Cutting off -/

/-- `x` is `y`, or it was stopped by the error `stop` -/
def CutsOff {ε α : Type} (stop : ε) (x y : Except ε α) : Prop := x = .error stop ∨ x = y

namespace CutsOff

variable {ε α β : Type} {stop : ε}

theorem refl (x : Except ε α) : CutsOff stop x x := .inr rfl

theorem bind {x y : Except ε α} {f g : α → Except ε β} (hx : CutsOff stop x y) (hf : ∀ a, CutsOff stop (f a) (g a)) :
    CutsOff stop (x >>= f) (y >>= g) := by
  rcases hx with rfl | rfl
  · exact .inl rfl
  · cases x with
    | error e => exact .refl (.error e)
    | ok a => exact hf a

/-- a check against two limits: what the smaller one lets through, the larger one lets through -/
theorem check {m m' height : Nat} (h : m ≤ m') {x y : Traced ε α} (hxy : CutsOff stop x.outcome y.outcome) {stop' : ε} :
    CutsOff stop (if m < height then .fail stop else x : Traced ε α).outcome
      (if m' < height then .fail stop' else y : Traced ε α).outcome := by
  by_cases hm : m < height
  · rw [if_pos hm]
    exact .inl rfl
  · rw [if_neg hm, if_neg (by omega)]
    exact hxy

end CutsOff

/-! ## Folding -/

theorem combine_cutsOff {m m' : Nat} (h : m ≤ m') (operator : String) (left right : Entry) :
    CutsOff (.nestingTooDeep m) (combine m operator left right).outcome (combine m' operator left right).outcome :=
  .check h (.refl _)

theorem foldFrom_cutsOff {m m' : Nat} (h : m ≤ m') (operators : List String) (left : Entry) (es : List Entry) :
    CutsOff (.nestingTooDeep m) (foldFrom m operators left es).outcome (foldFrom m' operators left es).outcome := by
  fun_induction foldFrom m operators left es with
  | case1 left => exact .refl _
  | case2 left e he =>
    rw [foldFrom_dangling he]
    exact .refl _
  | case3 left e he right rest ih =>
    rw [foldFrom_operator he, Traced.outcome_bind, Traced.outcome_bind]
    exact (combine_cutsOff h e.node.tag left right).bind ih
  | case4 left e rest he ih =>
    rw [foldFrom_operand (Bool.not_eq_true _ ▸ he), Traced.outcome_bind, Traced.outcome_bind]
    apply ih.bind
    intro folded
    exact .refl _

theorem foldLevel_cutsOff {m m' : Nat} (h : m ≤ m') (operators : List String) (es : List Entry) :
    CutsOff (.nestingTooDeep m) (foldLevel m operators es).outcome (foldLevel m' operators es).outcome := by
  cases es with
  | nil => exact .refl _
  | cons e rest =>
    rw [foldLevel, foldLevel]
    split_ifs
    · exact .refl _
    · exact foldFrom_cutsOff h operators e rest

theorem foldLevels_cutsOff {m m' : Nat} (h : m ≤ m') (levels : List (List String)) (es : List Entry) :
    CutsOff (.nestingTooDeep m) (foldLevels m levels es).outcome (foldLevels m' levels es).outcome := by
  induction levels generalizing es with
  | nil => exact .refl _
  | cons operators levels ih =>
    rw [foldLevels, foldLevels, Traced.outcome_bind, Traced.outcome_bind]
    exact (foldLevel_cutsOff h operators es).bind ih

/-! ## The outline -/

namespace Scope

variable {vars : List Variable} {m m' : Nat}

theorem callEntry_cutsOff (h : m ≤ m') (name : String) (args : List Entry) :
    CutsOff (.nestingTooDeep m) (callEntry ⟨vars, m⟩ name args).outcome (callEntry ⟨vars, m'⟩ name args).outcome := by
  rw [callEntry, callEntry, Traced.outcome_bind, Traced.outcome_bind]
  apply (CutsOff.refl _).bind
  intro _
  exact .check h (.refl _)

mutual

/-- items read alike under two limits, until the smaller one stops the parser -/
theorem entries_cutsOff (h : m ≤ m') (depth : Nat) (items : List Item) :
    CutsOff (.nestingTooDeep m) (entries ⟨vars, m⟩ depth items).outcome (entries ⟨vars, m'⟩ depth items).outcome := by
  match items with
  | [] => exact .refl _
  | .token t :: rest =>
    by_cases ht : t.isOperator "," = true
    · rw [entries_comma ht, entries_comma ht]
      exact entries_cutsOff h depth rest
    · rw [entries, entries, if_neg ht, if_neg ht]
      simp only [Traced.outcome_bind, Traced.outcome_ofExcept, Traced.outcome_pure]
      apply (CutsOff.refl _).bind
      intro node
      apply (entries_cutsOff h depth rest).bind
      intro more
      exact .refl _
  | .group g :: rest =>
    rw [entries, entries]
    simp only [Traced.outcome_bind, Traced.outcome_pure]
    apply (groupEntries_cutsOff h depth g).bind
    intro inner
    apply (entries_cutsOff h depth rest).bind
    intro more
    exact .refl _
  | .call name g :: rest =>
    rw [entries, entries]
    simp only [Traced.outcome_bind, Traced.outcome_pure]
    apply (groupEntries_cutsOff h depth g).bind
    intro args
    apply (callEntry_cutsOff h name.text args).bind
    intro entry
    apply (entries_cutsOff h depth rest).bind
    intro more
    exact .refl _

theorem groupEntries_cutsOff (h : m ≤ m') (depth : Nat) (g : Group) :
    CutsOff (.nestingTooDeep m) (groupEntries ⟨vars, m⟩ depth g).outcome (groupEntries ⟨vars, m'⟩ depth g).outcome := by
  match g with
  | ⟨opener, body, closer?⟩ =>
    rw [groupEntries, groupEntries]
    apply CutsOff.check h
    simp only [Traced.outcome_bind]
    apply (entries_cutsOff h (depth + 1) body).bind
    intro inner
    apply (foldLevels_cutsOff h precedence inner).bind
    intro folded
    cases closer? with
    | none => exact .refl _
    | some closer => exact .refl _

end

/-- **A limit only cuts off**: under a smaller limit the parser is stopped for nesting, or it answers as under the larger
one -/
theorem parse_cutsOff (h : m ≤ m') (ts : List Token) :
    CutsOff (.nestingTooDeep m) (parse ⟨vars, m⟩ ts) (parse ⟨vars, m'⟩ ts) := by
  unfold parse trace
  simp only [Traced.outcome_bind]
  apply (CutsOff.refl _).bind
  intro _
  apply (entries_cutsOff h 0 (Outline.of ts).items).bind
  intro es
  apply (foldLevels_cutsOff h precedence es).bind
  intro folded
  cases (Outline.of ts).breaks with
  | nil => exact .refl _
  | cons b breaks => exact .refl _

end Scope

/-! ## Parentheses -/

/-- how many parentheses are open at once, at most, where `openers` are open from before -/
def nestingFrom (openers : Nat) : List Token → Nat
  | [] => openers
  | t :: ts =>
    if t.isOperator "(" then nestingFrom (openers + 1) ts
    else if t.isOperator ")" then max openers (nestingFrom (openers - 1) ts)
    else nestingFrom openers ts

/-- how deep the parentheses of a token list are nested -/
def nesting (ts : List Token) : Nat := nestingFrom 0 ts

section Nesting

variable {openers : Nat} {t : Token} {ts : List Token}

theorem le_nestingFrom (openers : Nat) (ts : List Token) : openers ≤ nestingFrom openers ts := by
  induction ts generalizing openers with
  | nil => exact le_rfl
  | cons t ts ih =>
    rw [nestingFrom]
    split_ifs
    · exact (Nat.le_succ openers).trans (ih (openers + 1))
    · exact le_max_left _ _
    · exact ih openers

theorem nestingFrom_opener (ht : t.isOperator "(" = true) :
    nestingFrom openers (t :: ts) = nestingFrom (openers + 1) ts := by
  rw [nestingFrom, if_pos ht]

theorem nestingFrom_closer (ht : t.isOperator ")" = true) :
    nestingFrom (openers + 1) (t :: ts) = max (openers + 1) (nestingFrom openers ts) := by
  have ho : t.isOperator "(" = false := by
    rw [Token.isOperator_of_isOperator ht]
    rfl
  rw [nestingFrom, ho, if_neg Bool.false_ne_true, if_pos ht, Nat.add_sub_cancel]

theorem nestingFrom_other (ho : t.isOperator "(" = false) (hc : t.isOperator ")" = false) :
    nestingFrom openers (t :: ts) = nestingFrom openers ts := by
  rw [nestingFrom, ho, hc, if_neg Bool.false_ne_true, if_neg Bool.false_ne_true]

end Nesting

/-- a group is one level deeper than its contents, and leaves what follows it alone -/
theorem nestingFrom_group {opener closer : Token} {inner ts : List Token} (ho : opener.isOperator "(" = true)
    (hc : closer.isOperator ")" = true) {d d' : Nat}
    (hin : ∀ k tail, nestingFrom k (inner ++ tail) = max (k + d) (nestingFrom k tail))
    (hts : ∀ k tail, nestingFrom k (ts ++ tail) = max (k + d') (nestingFrom k tail)) (k : Nat) (tail : List Token) :
    nestingFrom k (opener :: (inner ++ closer :: ts) ++ tail) = max (k + max (d + 1) d') (nestingFrom k tail) := by
  calc nestingFrom k (opener :: (inner ++ closer :: ts) ++ tail)
      = nestingFrom (k + 1) (inner ++ closer :: (ts ++ tail)) := by
        rw [List.cons_append, nestingFrom_opener ho, List.append_assoc, List.cons_append]
    _ = max (k + 1 + d) (max (k + 1) (max (k + d') (nestingFrom k tail))) := by
        rw [hin, nestingFrom_closer hc, hts]
    _ = max (k + max (d + 1) d') (nestingFrom k tail) := by omega

/-- **The groups of a derivation are nested as deep as its parentheses**, whatever depth was allowed -/
theorem Derives.nestingFrom_append {vars : List Variable} {depth : Nat} {ts : List Token} {ns : List Node}
    (h : Derives vars depth ts ns) :
    ∃ d ≤ depth, Derives vars d ts ns ∧ ∀ k tail, nestingFrom k (ts ++ tail) = max (k + d) (nestingFrom k tail) := by
  induction h with
  | nil depth =>
    refine ⟨0, Nat.zero_le depth, .nil 0, ?_⟩
    intro k tail
    exact (max_eq_right (le_nestingFrom k tail)).symm
  | comma ht _ ih =>
    obtain ⟨d, hd, hder, hnesting⟩ := ih
    refine ⟨d, hd, .comma ht hder, ?_⟩
    intro k tail
    rw [List.cons_append, nestingFrom_other, hnesting]
    · rw [Token.isOperator_of_isOperator ht]
      rfl
    · rw [Token.isOperator_of_isOperator ht]
      rfl
  | token ht hn _ ih =>
    obtain ⟨d, hd, hder, hnesting⟩ := ih
    refine ⟨d, hd, .token ht hn hder, ?_⟩
    intro k tail
    simp only [Token.isPunctuation, Bool.or_eq_false_iff] at ht
    rw [List.cons_append, nestingFrom_other ht.1.1 ht.1.2, hnesting]
  | group ho hc _ hf _ ihin ih =>
    obtain ⟨d, hd, hder, hnesting⟩ := ihin
    obtain ⟨d', hd', hder', hnesting'⟩ := ih
    refine ⟨max d (d' - 1) + 1, by omega, .group ho hc (hder.mono (by omega)) hf (hder'.mono (by omega)), ?_⟩
    intro k tail
    rw [nestingFrom_group ho hc hnesting hnesting']
    omega
  | call hname ho hc _ hf _ ihin ih =>
    obtain ⟨d, hd, hder, hnesting⟩ := ihin
    obtain ⟨d', hd', hder', hnesting'⟩ := ih
    refine ⟨max d (d' - 1) + 1, by omega, .call hname ho hc (hder.mono (by omega)) hf (hder'.mono (by omega)), ?_⟩
    intro k tail
    -- the name is no parenthesis, so the call counts as its group
    rw [List.cons_append, nestingFrom_other (Token.isOperator_of_isFunction hname _) (Token.isOperator_of_isFunction hname _),
      nestingFrom_group ho hc hnesting hnesting']
    omega

theorem Derives.nesting_le {vars : List Variable} {depth : Nat} {ts : List Token} {ns : List Node}
    (h : Derives vars depth ts ns) : nesting ts ≤ depth ∧ Derives vars (nesting ts) ts ns := by
  obtain ⟨d, hd, hder, hnesting⟩ := h.nestingFrom_append
  have heq : nesting ts = d := by
    calc nesting ts = nestingFrom 0 (ts ++ []) := by rw [List.append_nil, nesting]
      _ = max (0 + d) 0 := hnesting 0 []
      _ = d := by omega
  rw [heq]
  exact ⟨hd, hder⟩

/-! ## The limit -/

/-- **The limit only cuts off, and exactly where it should.** Under a smaller limit a token list is nested too deep, or it
has the same tree or error as under a larger one. If it has a tree under some limit, it has that tree under those limits
that cover both the nesting of its parentheses and the levels of the tree, and under no other. -/
theorem parse_limit (vars : List Variable) (ts : List Token) :
    (∀ m m', m ≤ m' → Scope.parse ⟨vars, m⟩ ts = .error (.nestingTooDeep m) ∨
        Scope.parse ⟨vars, m⟩ ts = Scope.parse ⟨vars, m'⟩ ts) ∧
      ∀ limit t, Scope.parse ⟨vars, limit⟩ ts = .ok t →
        ∀ m, Scope.parse ⟨vars, m⟩ ts = .ok t ↔ nesting ts ≤ m ∧ t.levels ≤ m := by
  constructor
  · intro m m' h
    exact Scope.parse_cutsOff h ts
  · intro limit t hparse m
    constructor
    · intro hm
      obtain ⟨hlevels, ns, hderives, -⟩ := parse_eq_ok_iff.1 hm
      exact ⟨hderives.nesting_le.1, hlevels⟩
    · rintro ⟨hnesting, hlevels⟩
      obtain ⟨-, ns, hderives, hfolds⟩ := parse_eq_ok_iff.1 hparse
      exact parse_eq_ok_iff.2 ⟨hlevels, ns, hderives.nesting_le.2.mono hnesting, hfolds⟩

/-- the tokens of `((1)) + 2` -/
def groupedSum : List Token :=
  [⟨.operator, "(", .start⟩, ⟨.operator, "(", .start⟩, ⟨.number, "1", .start⟩, ⟨.operator, ")", .start⟩,
    ⟨.operator, ")", .start⟩, ⟨.operator, "+", .start⟩, ⟨.number, "2", .start⟩]

/-- one level, but two parentheses open at once -/
theorem parse_limit_grouped :
    nesting groupedSum = 2 ∧
      Scope.parse ⟨[], 9⟩ groupedSum = .ok (.binary "+" (.number "1.000000") (.number "2.000000")) ∧
      Scope.parse ⟨[], 2⟩ groupedSum = .ok (.binary "+" (.number "1.000000") (.number "2.000000")) ∧
      Scope.parse ⟨[], 1⟩ groupedSum = .error (.nestingTooDeep 1) := by
  have hlarge : Scope.parse ⟨[], 9⟩ groupedSum = .ok (.binary "+" (.number "1.000000") (.number "2.000000")) := by
    decide +kernel
  have hnesting : nesting groupedSum = 2 := by decide
  obtain ⟨hcut, hexact⟩ := parse_limit [] groupedSum
  have hiff := hexact 9 _ hlarge
  refine ⟨hnesting, hlarge, (hiff 2).2 ⟨by omega, by decide +kernel⟩, ?_⟩
  rcases hcut 1 9 (by decide) with hstop | hsame
  · exact hstop
  · have hcovered := (hiff 1).1 (hsame.trans hlarge)
    omega

end Formula
