/-
Evaluation gets to every part of a tree.

The arguments of a node are all evaluated before its function is called, whatever the function does with them. So if a tree
has a value, evaluation has been at every node that stands below no leaf, and has found a function there, no raw text among
the arguments, and room below the limit (`Evaluator.reached_of_ok`). Every operator, function name and reserved word of a
formula is the tag of such a node (`Scope.reaches_tree`).

`eval_reaches`: one word without a function, anywhere in a formula, leaves the formula without a value.
-/
import Mathlib.Tactic
import Formula.Proofs.Contexts
import Formula.Proofs.Shape

namespace Formula

/-! ## Trees -/

/-- how many nodes stand above the hole -/
def Context.levels : Context → Nat
  | .hole => 0
  | .under _ _ _ inner _ => inner.levels + 1

namespace Evaluator

variable {e : Evaluator} {depth : Nat}

/-- arguments with values are nodes with values -/
theorem arguments_reached {tag : String} {args : List Arg} {values : List Node}
    (h : (e.arguments depth tag args).outcome = .ok values) :
    ∀ arg ∈ args, ∃ n, arg = .node n ∧ ∃ v, (e.node depth n).outcome = .ok v := by
  induction args generalizing values with
  | nil => simp
  | cons arg args ih =>
    cases arg with
    | value text => cases h
    | node n =>
      rw [arguments_node] at h
      obtain ⟨v, hv, h⟩ := bind_eq_ok_iff.1 h
      obtain ⟨more, hmore, -⟩ := bind_eq_ok_iff.1 h
      exact List.forall_mem_cons.2 ⟨⟨n, rfl, v, hv⟩, ih hmore⟩

/-- a node that has a value and is no leaf has room below the limit, a function, and arguments with values -/
theorem branch_of_ok {tag : String} (htag : isLeafTag tag = false) {args : List Arg} {v : Node}
    (h : (e.node depth ⟨tag, args⟩).outcome = .ok v) :
    depth ≤ e.maxDepth ∧ (e.registry.get? tag).isSome = true ∧
      ∀ arg ∈ args, ∃ n, arg = .node n ∧ ∃ v, (e.node (depth + 1) n).outcome = .ok v := by
  rw [node_branch htag] at h
  split_ifs at h with hdeep
  cases hget : e.registry.get? tag with
  | none =>
    rw [hget] at h
    cases h
  | some f =>
    rw [hget] at h
    obtain ⟨values, hvalues, -⟩ := bind_eq_ok_iff.1 h
    exact ⟨not_lt.1 hdeep, rfl, arguments_reached hvalues⟩

/-- **What has a value was gone through to the end** -/
theorem reached_of_ok {c : Context} {n v : Node} (h : (e.node depth (c.fill n)).outcome = .ok v) :
    n.isLeaf = true ∨
      (e.registry.get? n.tag).isSome = true ∧ (∀ arg ∈ n.args, ∃ m, arg = .node m) ∧ c.levels + depth ≤ e.maxDepth := by
  induction c generalizing depth v with
  | hole =>
    obtain ⟨tag, args⟩ := n
    cases htag : isLeafTag tag with
    | true => exact .inl htag
    | false =>
      obtain ⟨hdepth, hget, hargs⟩ := branch_of_ok htag h
      refine .inr ⟨hget, ?_, ?_⟩
      · intro arg harg
        obtain ⟨m, hm, -⟩ := hargs arg harg
        exact ⟨m, hm⟩
      · rw [Context.levels]
        omega
  | under tag htag before inner after ih =>
    obtain ⟨-, -, hargs⟩ := branch_of_ok htag h
    have hmem : Arg.node (inner.fill n) ∈ before ++ .node (inner.fill n) :: after := by simp
    obtain ⟨m, hm, v', hv'⟩ := hargs _ hmem
    obtain rfl := Arg.node.inj hm
    rcases ih hv' with hleaf | ⟨hget, hnested, hlevels⟩
    · exact .inl hleaf
    · refine .inr ⟨hget, hnested, ?_⟩
      rw [Context.levels]
      omega

end Evaluator

/-! ## Formulas -/

/-- operators, function names and reserved words, all but the one that is a leaf -/
def Token.IsCalled (t : Token) : Prop :=
  (t.kind = .operator ∧ t.isPunctuation = false) ∨ (t.kind = .keyword ∧ t.text ≠ LeafKind.null.tag) ∨ t.isFunction = true

/-- a formula with an operator, a function name or a reserved word that has no function -/
def Registry.Lacks (r : Registry) (formula : String) : Prop :=
  ∃ tokens, tokenize formula = .ok tokens ∧ ∃ token ∈ tokens, token.IsCalled ∧ r.get? token.text = none

/-- a node tagged so stands below no leaf of the tree -/
def Node.Reaches (t : Node) (tag : String) : Prop := ∃ (c : Context) (n : Node), t = c.fill n ∧ n.tag = tag

namespace Node

theorem reaches_self (t : Node) : t.Reaches t.tag := ⟨.hole, t, rfl, rfl⟩

/-- what stands in an argument stands in the node above it -/
theorem Reaches.child {k : Node} {tag : String} (h : k.Reaches tag) {name : String} (hname : isLeafTag name = false)
    {args : List Arg} (hk : .node k ∈ args) : Reaches ⟨name, args⟩ tag := by
  obtain ⟨c, n, rfl, htag⟩ := h
  obtain ⟨before, after, rfl⟩ := List.append_of_mem hk
  exact ⟨.under name hname before c after, n, rfl, htag⟩

theorem Reaches.call {k : Node} {tag : String} (h : k.Reaches tag) {name : String} (hname : isLeafTag name = false)
    {args : List Node} (hk : k ∈ args) : (Node.call name args).Reaches tag :=
  h.child hname (List.mem_map_of_mem hk)

/-- every operator, name and word in the frontier of a tree is the tag of a node that evaluation gets to -/
theorem Formed.reaches {t m : Node} (h : t.Formed) (hm : m ∈ t.frontier) : t.Reaches m.tag := by
  induction h with
  | value h =>
    obtain ⟨kind, text, rfl, -⟩ := h
    rw [leaf, frontier_value, List.mem_singleton] at hm
    rw [hm]
    exact reaches_self _
  | word h =>
    rw [placeholder, frontier_value, List.mem_singleton] at hm
    rw [hm]
    exact reaches_self _
  | @binary op left right hop _ _ ihleft ihright =>
    have hname := isLeafTag_of_mem hop
    rw [frontier_binary hop, List.mem_append, List.mem_cons] at hm
    rcases hm with hleft | rfl | hright
    · exact (ihleft hleft).call hname (List.mem_pair.2 (.inl rfl))
    · exact reaches_self _
    · exact (ihright hright).call hname (List.mem_pair.2 (.inr rfl))
  | @call name args hname _ _ ih =>
    have htag := isLeafTag_functionName hname
    rw [frontier_call (not_mem_binaryOperators hname), List.mem_cons] at hm
    rcases hm with rfl | hargs
    · exact reaches_self _
    · obtain ⟨k, hk, hm⟩ := List.mem_flatMap.1 hargs
      exact (ih k hk hm).call htag hk

end Node

namespace Token.IsCalled

variable {token : Token}

theorem isPunctuation_eq_false (h : token.IsCalled) : token.isPunctuation = false := by
  rcases h with ⟨-, h⟩ | ⟨hkind, -⟩ | hname
  · exact h
  · simp [isPunctuation, isOperator, hkind]
  · simp [isPunctuation, isOperator_of_isFunction hname]

/-- such a token stands for itself in the frontier of a tree -/
theorem symbol_eq (h : token.IsCalled) (s : Scope) : s.symbol token = .ok (.placeholder token.text) := by
  rcases h with ⟨hkind, -⟩ | ⟨hkind, -⟩ | hname
  · simp [Scope.symbol, isFunction, Scope.tokenNode, hkind]
  · simp [Scope.symbol, isFunction, Scope.tokenNode, hkind]
  · rw [Scope.symbol, if_pos hname]

theorem isLeafTag_eq_false (h : token.IsCalled) (hclassed : token.Classed) : isLeafTag token.text = false := by
  rcases h with ⟨hkind, -⟩ | ⟨hkind, hnull⟩ | hname
  · have hall : ∀ word ∈ symbols, isLeafTag word = false := by decide
    exact hall _ (hclassed.operator hkind)
  · have hall : ∀ word ∈ reservedWords, word ≠ LeafKind.null.tag → isLeafTag word = false := by decide
    exact hall _ (hclassed.keyword hkind).1 hnull
  · exact isLeafTag_functionName (Bool.and_eq_true_iff.1 hname).2

end Token.IsCalled

namespace Scope

variable {s : Scope} {formula : String}

/-- **The words of a formula are in its tree** -/
theorem reaches_tree {tokens : List Token} {token : Token} {t : Node} (htokens : tokenize formula = .ok tokens)
    (ht : s.tree formula = .ok t) (hmem : token ∈ tokens) (hcalled : token.IsCalled) : t.Reaches token.text := by
  have hspell := symbols_parse (parse_of_tree htokens ht)
  have hvisible : token ∈ visible tokens := List.mem_filter.2 ⟨hmem, by simp [hcalled.isPunctuation_eq_false]⟩
  have hsymbol : .ok (.placeholder token.text) ∈ t.frontier.map (.ok : Node → Except ParseError Node) := by
    rw [← hspell, ← hcalled.symbol_eq s]
    exact List.mem_map_of_mem hvisible
  obtain ⟨m, hm, heq⟩ := List.mem_map.1 hsymbol
  obtain rfl := Except.ok.inj heq
  exact (formed_tree ht).1.reaches hm

/-- a formula with a value has a tree with a value -/
theorem exists_eval_of_evaluate {text : String} (h : s.evaluate formula = .ok text) :
    ∃ t v, s.tree formula = .ok t ∧ Evaluator.eval ⟨.builtin, s.maxDepth⟩ t = .ok v := by
  obtain ⟨-, -, h⟩ := Traced.outcome_bind_eq_ok.1 h
  obtain ⟨t, ht, h⟩ := Traced.outcome_bind_eq_ok.1 h
  obtain ⟨text', htext, -⟩ := Traced.outcome_bind_eq_ok.1 h
  obtain ⟨v, hv, -⟩ := Traced.outcome_bind_eq_ok.1 (mapError_eq_ok_iff.1 htext)
  exact ⟨t, v, ht, hv⟩

/-- a tree of a formula with such a word has no value -/
theorem exists_error_of_lacks {e : Evaluator} {t : Node} (ht : s.tree formula = .ok t) (hlacks : e.registry.Lacks formula) :
    ∃ err, e.eval t = .error err := by
  obtain ⟨tokens, htokens, token, hmem, hcalled, hget⟩ := hlacks
  obtain ⟨c, n, rfl, htag⟩ := reaches_tree htokens ht hmem hcalled
  cases heval : e.eval (c.fill n) with
  | error err => exact ⟨err, rfl⟩
  | ok v =>
    have hbranch : n.isLeaf = false := by
      rw [Node.isLeaf, htag]
      exact hcalled.isLeafTag_eq_false (classed_of_tokenize htokens token hmem)
    rcases Evaluator.reached_of_ok heval with hleaf | ⟨hsome, -⟩
    · simp [hbranch] at hleaf
    · simp [htag, hget] at hsome

end Scope

/-- **No part of a tree is passed over.** A tree with a value has a function at every node that stands below no leaf, and
nodes only under it, and the node stands on one of the levels that the limit allows. So a word without a function leaves
the whole formula without a value. -/
theorem eval_reaches (e : Evaluator) :
    (∀ t v, e.eval t = .ok v → ∀ c n, t = Context.fill c n → n.isLeaf = true ∨
      (e.registry.get? n.tag).isSome = true ∧ (∀ arg ∈ n.args, ∃ m, arg = .node m) ∧ c.levels < e.maxDepth) ∧
      (∀ (s : Scope) formula t, s.tree formula = .ok t → e.registry.Lacks formula → ∃ err, e.eval t = .error err) ∧
      ∀ (s : Scope) formula, Registry.builtin.Lacks formula → ∃ err, s.evaluate formula = .error err := by
  refine ⟨?_, fun _ _ _ => Scope.exists_error_of_lacks, ?_⟩
  · rintro t v h c n rfl
    exact Evaluator.reached_of_ok h
  · intro s formula hlacks
    cases hvalue : s.evaluate formula with
    | error err => exact ⟨err, rfl⟩
    | ok text =>
      obtain ⟨t, v, ht, hv⟩ := Scope.exists_eval_of_evaluate hvalue
      obtain ⟨err, herr⟩ : ∃ err, Evaluator.eval ⟨.builtin, s.maxDepth⟩ t = .error err :=
        Scope.exists_error_of_lacks ht hlacks
      rw [hv] at herr
      cases herr

/-- a place for the first argument of a call -/
def firstOfPair : Context := .under "CONCAT" rfl [] .hole [.node (.string "x")]

/-- the tokens of `CONCAT(NULL, TRUE)` -/
def joinedWords : List Token :=
  [⟨.ident, "CONCAT", ⟨0, 1, 1⟩⟩, ⟨.operator, "(", ⟨6, 1, 7⟩⟩, ⟨.keyword, "NULL", ⟨7, 1, 8⟩⟩, ⟨.operator, ",", ⟨11, 1, 12⟩⟩,
    ⟨.keyword, "TRUE", ⟨13, 1, 14⟩⟩, ⟨.operator, ")", ⟨17, 1, 18⟩⟩]

/-- two calls, which fill the two levels allowed, and a call that fails at its second argument -/
theorem eval_reaches_pair :
    Evaluator.eval ⟨.builtin, 2⟩ (firstOfPair.fill (.call "ABS" [.number "-1.000000"])) = .ok (.string "1.000000x") ∧
      (Registry.builtin.get? "ABS").isSome = true ∧ firstOfPair.levels < 2 ∧
      tokenize "CONCAT(NULL, TRUE)" = .ok joinedWords ∧
      Scope.tree {} "CONCAT(NULL, TRUE)" = .ok (.call "CONCAT" [.placeholder "NULL", .placeholder "TRUE"]) ∧
      (∃ err, Evaluator.eval ⟨.builtin, 2⟩ (.call "CONCAT" [.placeholder "NULL", .placeholder "TRUE"]) = .error err) ∧
      ∃ err, Scope.evaluate {} "CONCAT(NULL, TRUE)" = .error err := by
  have hvalue : Evaluator.eval ⟨.builtin, 2⟩ (firstOfPair.fill (.call "ABS" [.number "-1.000000"])) =
      .ok (.string "1.000000x") := by decide +kernel
  have htokens : tokenize "CONCAT(NULL, TRUE)" = .ok joinedWords := by decide +kernel
  have htree : Scope.tree {} "CONCAT(NULL, TRUE)" = .ok (.call "CONCAT" [.placeholder "NULL", .placeholder "TRUE"]) := by
    decide +kernel
  have hlacks : Registry.builtin.Lacks "CONCAT(NULL, TRUE)" :=
    ⟨joinedWords, htokens, ⟨.keyword, "TRUE", ⟨13, 1, 14⟩⟩, by decide, .inr (.inl (by decide)), by decide +kernel⟩
  obtain ⟨hreached, htrees, hformulas⟩ := eval_reaches ⟨.builtin, 2⟩
  rcases hreached _ _ hvalue firstOfPair _ rfl with hleaf | ⟨hget, -, hlevels⟩
  · cases hleaf
  · exact ⟨hvalue, hget, hlevels, htokens, htree, htrees {} _ _ htree hlacks, hformulas {} _ hlacks⟩

end Formula
