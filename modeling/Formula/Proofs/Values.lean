/-
What formulas evaluate to.

The canonical text of a number is one token, and as a formula it has itself as its value, whatever variables there are:
`evaluate_canonical`.

The trees of formulas hold values, operations and calls over them, and words that stand for themselves, which have no
function (`Node.Formed`). The functions that come with the language give values, and called on values they complain about
the formula only, not about a broken tree (`Complains.isMeaningful`). So evaluation ends in a value or in an error that
says something about the formula: `evaluation_ends`.
-/
import Mathlib.Tactic
import Formula.Proofs.NestingLimit
import Formula.Proofs.RoundTrip
import Formula.Proofs.Shape

namespace Formula

/-! ## Numbers -/

/-- a word that is one token by itself is the only token of its text -/
theorem tokenize_word {kind : TokenKind} {text : String} (h : Lexer.Spells kind text.toList) :
    tokenize text = .ok [⟨kind, text, .start⟩] := by
  have hscan := Lexer.scan_word h Lexer.delimited_nil .start
  rw [List.append_nil, String.ofList_toList] at hscan
  rw [tokenize_eq_ok_iff, TokenStream.ofText, hscan]
  rfl

theorem Evaluator.text_leaf (kind : LeafKind) (text : String) : Evaluator.text (.leaf kind text) = .ok text := by
  cases kind <;> rfl

theorem Evaluator.evalText_leaf (e : Evaluator) (kind : LeafKind) (text : String) :
    e.evalText (.leaf kind text) = .ok text := by
  have hvalue : (e.trace (.leaf kind text)).outcome = .ok (.leaf kind text) := node_ofKind kind text
  rw [evalText, traceText, Traced.outcome_bind_eq_ok]
  exact ⟨_, hvalue, text_leaf kind text⟩

/-- canonical text stands for the number that it shows -/
theorem tree_canonical {text canonical : String} (h : canonicalize text = some canonical) (s : Scope) :
    s.tree canonical = .ok (.number canonical) := by
  have hnode : Scope.tokenNode { vars := s.vars } ⟨.number, canonical, .start⟩ = .ok (.number canonical) := by
    change Scope.numberLeaf canonical .start = .ok (.number canonical)
    rw [Scope.numberLeaf, canonicalize_canonicalize h]
  have hderives : Derives s.vars s.maxDepth [⟨.number, canonical, .start⟩] [.number canonical] :=
    .token rfl hnode (.nil _)
  have hfolds : Folds precedence [.number canonical] [.number canonical] := (Node.isOperand_leaf _ _).folds
  have hlevels : (Node.number canonical).levels ≤ s.maxDepth := by
    rw [Node.number, Node.levels_leaf]
    exact Nat.zero_le _
  exact Scope.tree_eq_ok_iff.2
    ⟨_, tokenize_word (spells_canonical h), parse_eq_ok_iff.2 ⟨hlevels, _, hderives, hfolds⟩⟩

/-- **Canonical text is a fixed point of everything**: of putting numbers into canonical form, of splitting into tokens,
and of evaluation under any variables and any limit -/
theorem evaluate_canonical {text canonical : String} (h : canonicalize text = some canonical) :
    canonicalize canonical = some canonical ∧ tokenize canonical = .ok [⟨.number, canonical, .start⟩] ∧
      ∀ s : Scope, s.evaluate canonical = .ok canonical := by
  refine ⟨canonicalize_canonicalize h, tokenize_word (spells_canonical h), ?_⟩
  intro s
  rw [Scope.evaluate_of_tree (tree_canonical h s), Node.number, Evaluator.evalText_leaf]
  rfl

/-- a tiny negative number, which is written as a zero with a sign -/
theorem evaluate_canonical_negativeZero :
    canonicalize "-4e-400" = some "-0.000000" ∧ tokenize "-0.000000" = .ok [⟨.number, "-0.000000", .start⟩] ∧
      Scope.evaluate ⟨[⟨"$x", .string, "-0.000000"⟩], 0⟩ "-0.000000" = .ok "-0.000000" := by
  have hcanonical : canonicalize "-4e-400" = some "-0.000000" := by decide +kernel
  obtain ⟨-, htokens, hevaluate⟩ := evaluate_canonical hcanonical
  exact ⟨hcanonical, htokens, hevaluate _⟩

/-! ## Evaluation -/

/-- a complaint about a formula, as opposed to one about a broken tree -/
def EvalError.IsMeaningful : EvalError → Prop
  | .missingValue .. | .malformedNode _ | .notReduced _ => False
  | _ => True

/-- values have a text, so complaints about them are others -/
theorem Complains.isMeaningful {args : List Node} (hargs : ∀ n ∈ args, n.IsValue) {e : EvalError} (h : Complains args e) :
    e.IsMeaningful := by
  cases h with
  | arity | number | codepoint => exact trivial
  | missing function hn hnone =>
    obtain ⟨text, hvalue⟩ := (hargs _ hn).exists_value
    rw [hnone] at hvalue
    cases hvalue

/-- functions that give values or complain about their arguments, none of them under a word that stands for itself -/
structure Registry.Closed (r : Registry) : Prop where
  words : ∀ word ∈ standingWords, r.get? word = none
  values : r.All fun f => ∀ args, Ends Node.IsValue (Complains args) (f args)

theorem Registry.closed_builtin : builtin.Closed := by
  have hwords : ∀ word ∈ standingWords, (builtin.get? word).isNone = true := by decide +kernel
  exact ⟨fun word hword => Option.isNone_iff_eq_none.1 (hwords word hword), ends_builtin⟩

namespace Evaluator

variable {e : Evaluator} {depth : Nat}

theorem ends_arguments {tag : String} {nodes : List Node}
    (h : ∀ n ∈ nodes, Ends Node.IsValue EvalError.IsMeaningful (e.node depth n).outcome) :
    Ends (fun values => ∀ v ∈ values, v.IsValue) EvalError.IsMeaningful
      (e.arguments depth tag (nodes.map Arg.node)).outcome := by
  induction nodes with
  | nil =>
    intro v hv
    cases hv
  | cons n nodes ih =>
    obtain ⟨hn, hnodes⟩ := List.forall_mem_cons.1 h
    rw [arguments_cons]
    apply hn.bind
    intro value hvalue
    apply (ih hnodes).bind
    intro more hmore
    exact List.forall_mem_cons.2 ⟨hvalue, hmore⟩

/-- a call ends well if its arguments do -/
theorem ends_call (hr : e.registry.Closed) {name : String} (hname : isLeafTag name = false) {args : List Node}
    (h : ∀ n ∈ args, Ends Node.IsValue EvalError.IsMeaningful (e.node (depth + 1) n).outcome) :
    Ends Node.IsValue EvalError.IsMeaningful (e.node depth (.call name args)).outcome := by
  rw [node_call hname]
  split_ifs
  · exact trivial
  · cases hget : e.registry.get? name with
    | none => exact trivial
    | some f =>
      apply (ends_arguments h).bind
      intro values hvalues
      exact (hr.values name f hget values).mono fun _ => Complains.isMeaningful hvalues

/-- **The trees of formulas evaluate to values or fail for a reason**, with functions that take values to values -/
theorem ends_node (hr : e.registry.Closed) {t : Node} (h : t.Formed) :
    Ends Node.IsValue EvalError.IsMeaningful (e.node depth t).outcome := by
  induction h generalizing depth with
  | value h =>
    obtain ⟨kind, text, rfl, hnumber⟩ := h
    rw [node_ofKind]
    exact ⟨kind, text, rfl, hnumber⟩
  | word h =>
    rw [Node.placeholder, node_value (isLeafTag_standingWord h), hr.words _ h]
    split_ifs
    · exact trivial
    · exact trivial
  | @binary op left right hop _ _ ihleft ihright =>
    have hargs : ∀ n ∈ [left, right], Ends Node.IsValue EvalError.IsMeaningful (e.node (depth + 1) n).outcome := by
      intro n hn
      rcases List.mem_pair.1 hn with rfl | rfl
      · exact ihleft
      · exact ihright
    exact ends_call hr (isLeafTag_of_mem hop) hargs
  | @call name args hname _ _ ih =>
    have htag : isLeafTag name = false := isLeafTag_functionName hname
    exact ends_call hr htag fun n hn => ih n hn

theorem ends_eval (hr : e.registry.Closed) {t : Node} (h : t.Formed) :
    Ends Node.IsValue EvalError.IsMeaningful (e.eval t) :=
  ends_node hr h

theorem ends_evalText (hr : e.registry.Closed) {t : Node} (h : t.Formed) :
    Ends (fun _ => True) EvalError.IsMeaningful (e.evalText t) := by
  rw [evalText, traceText, Traced.outcome_bind]
  apply (ends_eval hr h).bind
  intro v hv
  obtain ⟨kind, text, rfl, -⟩ := hv
  rw [Traced.outcome_ofExcept, text_leaf]
  exact trivial

end Evaluator

/-- no error of one stage is passed on as one of another -/
theorem mapError_ne_error {ε α : Type} {f : ε → Error} {error : Error} (h : ∀ e, f e ≠ error) (x : Except ε α) :
    x.mapError f ≠ .error error := by
  intro hx
  cases x with
  | ok a => cases hx
  | error e => exact h e (Except.error.inj hx)

/-- a formula without a tree has an error of its tokens or of their order -/
theorem Scope.tree_ne_eval (s : Scope) (formula : String) (e : EvalError) : s.tree formula ≠ .error (.eval e) := by
  intro h
  rw [tree, traceTree, Traced.outcome_bind, Traced.outcome_mapError] at h
  rcases bind_eq_error_iff.1 h with h | ⟨tokens, -, h⟩
  · exact mapError_ne_error (fun _ => by simp) _ h
  · rw [Traced.outcome_mapError] at h
    exact mapError_ne_error (fun _ => by simp) _ h

/-- an error of evaluation comes from evaluating the tree of the formula -/
theorem Scope.tree_of_evaluate {s : Scope} {formula : String} {e : EvalError}
    (h : s.evaluate formula = .error (.eval e)) : ∃ t, s.tree formula = .ok t := by
  rw [evaluate, traceValue, Traced.outcome_bind] at h
  rcases bind_eq_error_iff.1 h with h | ⟨_, -, h⟩
  · cases h
  · rw [Traced.outcome_bind] at h
    rcases bind_eq_error_iff.1 h with h | ⟨t, ht, -⟩
    · exact absurd h (s.tree_ne_eval formula e)
    · exact ⟨t, ht⟩

/-- **Evaluation ends in a value or says what is wrong with the formula.** What the tree of a formula evaluates to is a
number, string or null with one text, canonical for a number; and no formula fails as if its tree were broken. -/
theorem evaluation_ends (s : Scope) (formula : String) :
    (∀ t limit v, s.tree formula = .ok t → Evaluator.eval ⟨.builtin, limit⟩ t = .ok v →
        ∃ kind text, v = .leaf kind text ∧ (kind = .number → canonicalize text = some text)) ∧
      ∀ e, s.evaluate formula = .error (.eval e) →
        (∀ tag, e ≠ .malformedNode tag) ∧ (∀ function tag, e ≠ .missingValue function tag) ∧
          ∀ tag, e ≠ .notReduced tag := by
  constructor
  · intro t limit v htree hvalue
    have hends := Evaluator.ends_eval (e := ⟨.builtin, limit⟩) Registry.closed_builtin (formed_tree htree).1
    rw [hvalue] at hends
    exact hends
  · intro e herror
    obtain ⟨t, htree⟩ := Scope.tree_of_evaluate herror
    have hends := Evaluator.ends_evalText (e := ⟨.builtin, s.maxDepth⟩) Registry.closed_builtin (formed_tree htree).1
    rw [Scope.evalText_of_evaluate htree herror] at hends
    -- the three errors are those that mean nothing
    refine ⟨?_, ?_, ?_⟩
    · rintro tag rfl
      exact hends
    · rintro function tag rfl
      exact hends
    · rintro tag rfl
      exact hends

/-- the tree of a nested call, whose argument is put in from a variable -/
def absoluteTree : Node := .call "ABS" [.call "CONCAT" [.string "-1", .string "e3"]]

/-- a number from two texts, and a formula that stops at the second of them -/
theorem evaluation_ends_absolute :
    Scope.tree ⟨[⟨"x", .string, "-1"⟩], 9⟩ "ABS(CONCAT(x, 'e3'))" = .ok absoluteTree ∧
      Evaluator.eval ⟨.builtin, 2⟩ absoluteTree = .ok (.number "1000.000000") ∧
      canonicalize "1000.000000" = some "1000.000000" ∧
      Scope.evaluate ⟨[⟨"x", .string, "-1"⟩], 9⟩ "ABS('e3')" = .error (.eval (.invalidNumber "ABS" "e3")) ∧
      ∀ tag, EvalError.invalidNumber "ABS" "e3" ≠ .malformedNode tag := by
  have htree : Scope.tree ⟨[⟨"x", .string, "-1"⟩], 9⟩ "ABS(CONCAT(x, 'e3'))" = .ok absoluteTree := by decide +kernel
  have hvalue : Evaluator.eval ⟨.builtin, 2⟩ absoluteTree = .ok (.number "1000.000000") := by decide +kernel
  have herror : Scope.evaluate ⟨[⟨"x", .string, "-1"⟩], 9⟩ "ABS('e3')" = .error (.eval (.invalidNumber "ABS" "e3")) := by
    decide +kernel
  obtain ⟨kind, text, hleaf, hcanonical⟩ := (evaluation_ends _ _).1 _ _ _ htree hvalue
  obtain ⟨rfl, rfl⟩ : kind = .number ∧ text = "1000.000000" := by
    cases kind <;> simp_all [Node.number, Node.leaf, LeafKind.tag]
  exact ⟨htree, hvalue, hcanonical rfl, herror, ((evaluation_ends _ _).2 _ herror).1⟩

end Formula
