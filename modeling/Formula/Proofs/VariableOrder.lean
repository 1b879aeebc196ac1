/-
The order of variables.

A token list reads its variables in two ways: a name takes the first variable that bears it, and a string has the values of
all parameters put in, one parameter after the other. Two variable lists that agree in both (`Variable.Agree`) parse every
such token list alike.

Changes that keep the agreement (`Variable.Unseen`) are to swap two neighbours that differ in name, unless both are
parameters, and to leave out a variable that is no parameter and is either hidden behind an earlier one of its name or named
by no token. `parse_unseen`: no number of such changes can be told from the tree or the error.
-/
import Mathlib.Tactic
import Formula.Proofs.Substitution

namespace Formula

/-- an identifier or a parameter -/
def Token.IsName (t : Token) : Prop := t.kind = .ident ∨ t.kind = .param

instance (t : Token) : Decidable t.IsName := inferInstanceAs (Decidable (_ ∨ _))

namespace Variable

/-! ## Agreement -/

/-- the variable lists have the same parameters in the same order, and the same first variable for each name in `ts` -/
structure Agree (ts : List Token) (vars vars' : List Variable) : Prop where
  params : vars.filter isParam = vars'.filter isParam
  first : ∀ t ∈ ts, t.IsName → vars.find? (·.name == t.text) = vars'.find? (·.name == t.text)

namespace Agree

variable {ts : List Token} {vars vars' vars'' : List Variable}

theorem refl (ts : List Token) (vars : List Variable) : Agree ts vars vars := ⟨rfl, fun _ _ _ => rfl⟩

theorem symm (h : Agree ts vars vars') : Agree ts vars' vars :=
  ⟨h.params.symm, fun t ht hname => (h.first t ht hname).symm⟩

theorem trans (h : Agree ts vars vars') (h' : Agree ts vars' vars'') : Agree ts vars vars'' :=
  ⟨h.params.trans h'.params, fun t ht hname => (h.first t ht hname).trans (h'.first t ht hname)⟩

theorem interpolate (h : Agree ts vars vars') (text : String) :
    Variable.interpolate vars text = Variable.interpolate vars' text := by
  rw [Variable.interpolate, Variable.interpolate, h.params]

theorem variableLeaf (h : Agree ts vars vars') {t : Token} (ht : t ∈ ts) (hname : t.IsName) :
    Scope.variableLeaf { vars } t = Scope.variableLeaf { vars := vars' } t := by
  have hfind : Scope.find? { vars } t.text = Scope.find? { vars := vars' } t.text := h.first t ht hname
  rw [Scope.variableLeaf, Scope.variableLeaf, hfind]

/-- each token gives the same leaf, placeholder or error -/
theorem tokenNode (h : Agree ts vars vars') {t : Token} (ht : t ∈ ts) :
    Scope.tokenNode { vars } t = Scope.tokenNode { vars := vars' } t := by
  unfold Scope.tokenNode
  cases hkind : t.kind with
  | operator | keyword | number => rfl
  | string => simp only [h.interpolate]
  | param => exact h.variableLeaf ht (.inr hkind)
  | ident => simp only [h.variableLeaf ht (.inl hkind)]

theorem parse (h : Agree ts vars vars') (limit : Nat) : Scope.parse ⟨vars, limit⟩ ts = Scope.parse ⟨vars', limit⟩ ts := by
  have halike : List.Forall₂ (Token.Alike vars vars') ts ts :=
    List.forall₂_same.2 fun t ht => ⟨fun _ => rfl, rfl, rfl, (h.tokenNode ht).symm⟩
  exact (Scope.parse_alike halike).symm

end Agree

/-! ## Changes that are not seen -/

/-- a change of the variables that `ts` cannot tell -/
inductive Unseen (ts : List Token) : List Variable → List Variable → Prop where
  | swap (before after : List Variable) {v w : Variable} (hname : v.name ≠ w.name) (hparam : ¬(v.isParam ∧ w.isParam)) :
      Unseen ts (before ++ v :: w :: after) (before ++ w :: v :: after)
  | hidden (before after : List Variable) {v : Variable} (hparam : ¬v.isParam) (hearlier : ∃ u ∈ before, u.name = v.name) :
      Unseen ts (before ++ v :: after) (before ++ after)
  | unnamed (before after : List Variable) {v : Variable} (hparam : ¬v.isParam)
      (hnone : ∀ t ∈ ts, t.IsName → t.text ≠ v.name) : Unseen ts (before ++ v :: after) (before ++ after)

/-- a variable that is no parameter and is not the first one found leaves no gap -/
theorem agree_without {ts : List Token} {before after : List Variable} {v : Variable} (hparam : ¬v.isParam)
    (hfirst : ∀ t ∈ ts, t.IsName → v.name = t.text → ∃ u ∈ before, u.name = t.text) :
    Agree ts (before ++ v :: after) (before ++ after) := by
  refine ⟨by simp [hparam], ?_⟩
  intro t ht hname
  rw [List.find?_append, List.find?_append]
  by_cases hv : v.name = t.text
  · obtain ⟨u, hu, heq⟩ := hfirst t ht hname hv
    have hsome : (before.find? (·.name == t.text)).isSome := List.find?_isSome.2 ⟨u, hu, by simpa using heq⟩
    rw [Option.or_of_isSome hsome, Option.or_of_isSome hsome]
  · simp [hv]

theorem Unseen.agree {ts : List Token} {vars vars' : List Variable} (h : Unseen ts vars vars') : Agree ts vars vars' := by
  cases h with
  | @swap before after v w hname hparam =>
    refine ⟨?_, ?_⟩
    · cases hv : v.isParam <;> cases hw : w.isParam <;> simp_all
    · intro t _ _
      rw [List.find?_append, List.find?_append]
      by_cases hv : v.name = t.text
      · have hw : w.name ≠ t.text := fun hw => hname (hv.trans hw.symm)
        simp [hv, hw]
      · simp [List.find?_cons, hv]
  | hidden before after hparam hearlier =>
    apply agree_without hparam
    intro t _ _ heq
    rwa [← heq]
  | unnamed before after hparam hnone =>
    apply agree_without hparam
    intro t ht hname heq
    exact absurd heq.symm (hnone t ht hname)

/-- agreement survives any number of changes -/
theorem agree_of_eqvGen {ts : List Token} {vars vars' : List Variable} (h : Relation.EqvGen (Unseen ts) vars vars') :
    Agree ts vars vars' := by
  induction h with
  | rel _ _ h => exact h.agree
  | refl vars => exact .refl ts vars
  | symm _ _ _ ih => exact ih.symm
  | trans _ _ _ _ _ ih ih' => exact ih.trans ih'

end Variable

/-- **Only parameters depend on their order.** Whatever the limit, a token list gives the same tree or the same error when
two neighbouring variables of different names, not both parameters, change places, and when a variable that is no parameter
is left out because an earlier one has its name or because no identifier and no parameter of the list is its name; and so
after any number of such changes, forth and back. -/
theorem parse_unseen {ts : List Token} {vars vars' : List Variable}
    (h : Relation.EqvGen (Variable.Unseen ts) vars vars') (limit : Nat) :
    Scope.parse ⟨vars, limit⟩ ts = Scope.parse ⟨vars', limit⟩ ts :=
  (Variable.agree_of_eqvGen h).parse limit

/-- the tokens of `CONCAT('$p$q',x)` -/
def parameterCall : List Token :=
  [⟨.ident, "CONCAT", ⟨0, 1, 1⟩⟩, ⟨.operator, "(", ⟨6, 1, 7⟩⟩, ⟨.string, "$p$q", ⟨7, 1, 8⟩⟩, ⟨.operator, ",", ⟨13, 1, 14⟩⟩,
    ⟨.ident, "x", ⟨14, 1, 15⟩⟩, ⟨.operator, ")", ⟨15, 1, 16⟩⟩]

/-- two parameters, the value of the first holding the name of the second, a number, and two variables to spare -/
def spareVars : List Variable :=
  [⟨"$p", .string, "$q"⟩, ⟨"x", .number, "1"⟩, ⟨"x", .null, "NULL"⟩, ⟨"$q", .string, "a"⟩, ⟨"y", .null, "NULL"⟩]

/-- the number moves before the first parameter, and the second `x` and the `y` go; the parameters cannot change places -/
theorem parse_unseen_parameters :
    Scope.parse ⟨spareVars, 1⟩ parameterCall =
        Scope.parse ⟨[⟨"x", .number, "1"⟩, ⟨"$p", .string, "$q"⟩, ⟨"$q", .string, "a"⟩], 1⟩ parameterCall ∧
      Scope.parse ⟨spareVars, 1⟩ parameterCall = .ok (.call "CONCAT" [.string "aa", .number "1.000000"]) ∧
      Scope.parse ⟨[⟨"x", .number, "1"⟩, ⟨"$q", .string, "a"⟩, ⟨"$p", .string, "$q"⟩], 1⟩ parameterCall =
        .ok (.call "CONCAT" [.string "$qa", .number "1.000000"]) := by
  have hswap : Variable.Unseen parameterCall spareVars
      [⟨"x", .number, "1"⟩, ⟨"$p", .string, "$q"⟩, ⟨"x", .null, "NULL"⟩, ⟨"$q", .string, "a"⟩, ⟨"y", .null, "NULL"⟩] :=
    .swap [] _ (by decide) (by decide)
  have hhidden : Variable.Unseen parameterCall
      [⟨"x", .number, "1"⟩, ⟨"$p", .string, "$q"⟩, ⟨"x", .null, "NULL"⟩, ⟨"$q", .string, "a"⟩, ⟨"y", .null, "NULL"⟩]
      [⟨"x", .number, "1"⟩, ⟨"$p", .string, "$q"⟩, ⟨"$q", .string, "a"⟩, ⟨"y", .null, "NULL"⟩] :=
    .hidden [_, _] _ (by decide) ⟨_, List.mem_cons_self, rfl⟩
  have hunnamed : Variable.Unseen parameterCall
      [⟨"x", .number, "1"⟩, ⟨"$p", .string, "$q"⟩, ⟨"$q", .string, "a"⟩, ⟨"y", .null, "NULL"⟩]
      [⟨"x", .number, "1"⟩, ⟨"$p", .string, "$q"⟩, ⟨"$q", .string, "a"⟩] :=
    .unnamed [_, _, _] [] (by decide) (by decide)
  refine ⟨?_, by decide +kernel, by decide +kernel⟩
  exact parse_unseen (.trans _ _ _ (.rel _ _ hswap) (.trans _ _ _ (.rel _ _ hhidden) (.rel _ _ hunnamed))) 1

end Formula
