/-
Where the evaluator's nesting limit bites.

The parser counts the levels of a tree from the leaves up, and a placeholder counts for none. The evaluator counts from the
root down, and a placeholder, being no leaf, counts for one. On everything else the two counts agree. So evaluation under
the limit that a formula was parsed under can be stopped for its nesting, by a placeholder below exactly as many levels as
the limit allows; evaluation stops at the first placeholder in any case, so no other one matters.

`nestingTooDeep_iff`: there are functions under which a parsed formula is nested too deep iff its first placeholder
lies below exactly as many levels as the limit allows. One level more is always enough.
-/
import Mathlib.Tactic
import Formula.Interpreter
import Formula.Proofs.Frontier
import Formula.Proofs.Functions

namespace Formula

/-! ## Trees that are built -/

/-- the tags that come with nested nodes -/
def callable : List String := binaryOperators ++ functionNames

/-- single texts, and operations and calls over what was built before -/
inductive Node.Built : Node → Prop where
  | value (tag text : String) : Built ⟨tag, [.value text]⟩
  | call {name : String} {args : List Node} (hname : name ∈ callable) (hargs : ∀ n ∈ args, Built n) :
      Built (.call name args)

theorem Node.Built.binary {op : String} (hop : op ∈ binaryOperators) {left right : Node} (hleft : left.Built)
    (hright : right.Built) : (Node.binary op left right).Built := by
  have hargs : ∀ n ∈ [left, right], n.Built := by
    intro n hn
    rcases List.mem_pair.1 hn with rfl | rfl
    · exact hleft
    · exact hright
  exact .call (List.mem_append_left _ hop) hargs

theorem Folds.built {nodes out : List Node} (h : Folds precedence nodes out) (hnodes : ∀ n ∈ nodes, n.Built) :
    ∀ n ∈ out, n.Built := by
  refine h.forall_mem ?_ hnodes
  intro operators hoperators op hop left right hleft hright
  exact .binary (mem_binaryOperators hoperators hop) hleft hright

theorem Derives.built {vars : List Variable} {depth : Nat} {ts : List Token} {ns : List Node}
    (h : Derives vars depth ts ns) : ∀ n ∈ ns, n.Built := by
  induction h with
  | nil depth => simp
  | comma _ _ ih => exact ih
  | token _ hn _ ih =>
    refine List.forall_mem_cons.2 ⟨?_, ih⟩
    rcases Scope.tokenNode_ok hn with ⟨kind, text, rfl, -⟩ | ⟨-, rfl⟩
    · exact .value _ _
    · exact .value _ _
  | group _ _ _ hf _ ihin ih => exact List.forall_mem_append.2 ⟨hf.built ihin, ih⟩
  | call hname _ _ _ hf _ ihin ih =>
    have hfunction := List.contains_iff_mem.1 (Bool.and_eq_true_iff.1 hname).2
    exact List.forall_mem_cons.2 ⟨.call (List.mem_append_right _ hfunction) (hf.built ihin), ih⟩

/-- what a formula stands for was built, and has no more levels than the limit allows -/
theorem built_tree {s : Scope} {formula : String} {t : Node} (h : s.tree formula = .ok t) :
    t.Built ∧ t.levels ≤ s.maxDepth := by
  obtain ⟨tokens, -, hparse⟩ := Scope.tree_eq_ok_iff.1 h
  obtain ⟨hlevels, ns, hderives, hfolds⟩ := parse_eq_ok_iff.1 hparse
  exact ⟨hfolds.built hderives.built t (List.mem_singleton_self t), hlevels⟩

theorem isLeafTag_callable {name : String} (h : name ∈ callable) : isLeafTag name = false := by
  have hall : ∀ name ∈ callable, isLeafTag name = false := by decide +kernel
  exact hall name h

theorem isLeafTag_functionName {name : String} (h : isFunctionName name = true) : isLeafTag name = false :=
  isLeafTag_callable (List.mem_append_right _ (List.contains_iff_mem.1 h))

/-! ## The first placeholder -/

/-- how many levels lie above the first placeholder of a tree, if it has one -/
def Node.placeholderDepth? : Node → Option Nat :=
  Node.bottomUp (fun tag _ => if isLeafTag tag then none else some 0) fun _ parts => (parts.findSome? id).map (· + 1)

/-- how many levels lie above the first placeholder of some trees -/
def firstPlaceholder? (nodes : List Node) : Option Nat := nodes.findSome? Node.placeholderDepth?

namespace Node

theorem placeholderDepth?_leaf {tag : String} (h : isLeafTag tag = true) (text : String) :
    placeholderDepth? ⟨tag, [.value text]⟩ = none := by
  rw [placeholderDepth?, bottomUp_value, if_pos h]

theorem placeholderDepth?_value {tag : String} (h : isLeafTag tag = false) (text : String) :
    placeholderDepth? ⟨tag, [.value text]⟩ = some 0 := by
  rw [placeholderDepth?, bottomUp_value, h, if_neg Bool.false_ne_true]

theorem placeholderDepth?_call (name : String) (args : List Node) :
    (call name args).placeholderDepth? = (firstPlaceholder? args).map (· + 1) := by
  rw [placeholderDepth?, bottomUp_call, List.findSome?_map]
  rfl

/-- a placeholder lies below no more levels than the tree has -/
theorem Built.placeholderDepth?_le {t : Node} (ht : t.Built) {w : Nat} (h : t.placeholderDepth? = some w) :
    w ≤ t.levels := by
  induction ht generalizing w with
  | value tag text =>
    cases htag : isLeafTag tag with
    | true =>
      rw [placeholderDepth?_leaf htag] at h
      cases h
    | false =>
      rw [placeholderDepth?_value htag] at h
      have hzero := Option.some.inj h
      omega
  | @call name args hname _ ih =>
    rw [placeholderDepth?_call] at h
    obtain ⟨w, hw, rfl⟩ := Option.map_eq_some_iff.1 h
    obtain ⟨n, hn, hw⟩ := List.exists_of_findSome?_eq_some hw
    have hdepth := ih n hn hw
    have hlevels := mostLevels_le_iff.1 (le_refl (mostLevels args)) n hn
    rw [levels_call]
    omega

end Node

/-! ## Functions -/

/-- an outcome that is no complaint about nesting -/
def NotTooDeep {α : Type} (x : Except EvalError α) : Prop := ∀ limit, x ≠ .error (.nestingTooDeep limit)

theorem notTooDeep_ok {α : Type} (a : α) : NotTooDeep (.ok a : Except EvalError α) := by
  intro limit h
  cases h

/-- no registered function complains about nesting -/
def Registry.NeverTooDeep (r : Registry) : Prop := ∀ name f, r.get? name = some f → ∀ args, NotTooDeep (f args)

namespace Registry

/-- the functions that give null whatever they are called on -/
def nulls (names : List String) : Registry := names.foldr (fun name r => r.register name fun _ => .ok .null) .empty

theorem neverTooDeep_nulls (names : List String) : (nulls names).NeverTooDeep := by
  induction names with
  | nil => exact all_empty
  | cons name names ih => exact All.register ih name fun _ => notTooDeep_ok Node.null

theorem get?_nulls {names : List String} {name : String} (h : name ∈ names) :
    (nulls names).get? name = some fun _ => .ok .null := by
  induction names with
  | nil => simp at h
  | cons other names ih =>
    rw [nulls, List.foldr_cons, get?_register]
    split_ifs with hname
    · rfl
    · exact ih (List.mem_of_ne_of_mem (Ne.symm hname) h)

/-- the functions that come with the language complain about their arguments only -/
theorem neverTooDeep_builtin : builtin.NeverTooDeep := by
  intro name f hf args limit herror
  have hends := ends_builtin name f hf args
  rw [herror] at hends
  cases hends

end Registry

/-! ## Evaluating -/

namespace Evaluator

variable {e : Evaluator} {depth : Nat}

/-- a node that is no leaf needs room below the limit, a function, and values of its arguments -/
theorem node_branch {tag : String} (h : isLeafTag tag = false) (args : List Arg) :
    (e.node depth ⟨tag, args⟩).outcome =
      if e.maxDepth < depth then .error (.nestingTooDeep e.maxDepth)
      else match e.registry.get? tag with
        | none => .error (.unknownFunction tag)
        | some f => (e.arguments (depth + 1) tag args).outcome >>= f := by
  rw [node, h, if_neg Bool.false_ne_true]
  split_ifs
  · rfl
  · cases e.registry.get? tag with
    | none => rfl
    | some f =>
      simp only [Traced.outcome_bind, Traced.outcome_report, Traced.outcome_ofExcept]
      rfl

theorem node_call {name : String} (h : isLeafTag name = false) (args : List Node) :
    (e.node depth (.call name args)).outcome =
      if e.maxDepth < depth then .error (.nestingTooDeep e.maxDepth)
      else match e.registry.get? name with
        | none => .error (.unknownFunction name)
        | some f => (e.arguments (depth + 1) name (args.map Arg.node)).outcome >>= f :=
  node_branch h _

/-- a call of a function that is registered, within the limit, is that function on the values of the arguments -/
theorem node_registered {name : String} {f : Implementation} (hname : isLeafTag name = false)
    (hget : e.registry.get? name = some f) (args : List Node) :
    (e.node depth (.call name args)).outcome =
      if e.maxDepth < depth then .error (.nestingTooDeep e.maxDepth)
      else (e.arguments (depth + 1) name (args.map Arg.node)).outcome >>= f := by
  rw [node_call hname, hget]

/-- a placeholder has no value: its text is no argument -/
theorem node_value {tag : String} (h : isLeafTag tag = false) (text : String) :
    (e.node depth ⟨tag, [.value text]⟩).outcome =
      if e.maxDepth < depth then .error (.nestingTooDeep e.maxDepth)
      else match e.registry.get? tag with
        | none => .error (.unknownFunction tag)
        | some _ => .error (.malformedNode tag) := by
  rw [node_branch h]
  rfl

theorem node_leaf {tag : String} (h : isLeafTag tag = true) (args : List Arg) :
    (e.node depth ⟨tag, args⟩).outcome = .ok ⟨tag, args⟩ := by
  rw [node, if_pos h]
  rfl

theorem node_ofKind (kind : LeafKind) (text : String) :
    (e.node depth (.leaf kind text)).outcome = .ok (.leaf kind text) := by
  have hleaf : isLeafTag kind.tag = true := by cases kind <;> rfl
  exact node_leaf hleaf _

theorem arguments_node (tag : String) (n : Node) (rest : List Arg) :
    (e.arguments depth tag (.node n :: rest)).outcome = do
      let value ← (e.node depth n).outcome
      let more ← (e.arguments depth tag rest).outcome
      return value :: more := by
  rw [arguments]
  simp only [Traced.outcome_bind, Traced.outcome_pure]
  rfl

theorem arguments_cons (tag : String) (n : Node) (nodes : List Node) :
    (e.arguments depth tag ((n :: nodes).map Arg.node)).outcome = do
      let value ← (e.node depth n).outcome
      let more ← (e.arguments depth tag (nodes.map Arg.node)).outcome
      return value :: more :=
  arguments_node tag n _

theorem arguments_single (tag : String) (n : Node) :
    (e.arguments depth tag ([n].map Arg.node)).outcome = do
      let value ← (e.node depth n).outcome
      return [value] := by
  rw [arguments_cons]
  rfl

theorem arguments_pair (tag : String) (m n : Node) :
    (e.arguments depth tag ([m, n].map Arg.node)).outcome = do
      let first ← (e.node depth m).outcome
      let second ← (e.node depth n).outcome
      return [first, second] := by
  rw [arguments_cons, arguments_single]
  simp only [bind_assoc, pure_bind]

/-- arguments have values exactly if each of them has one -/
theorem arguments_ok_iff {tag : String} {nodes : List Node} :
    (∃ values, (e.arguments depth tag (nodes.map Arg.node)).outcome = .ok values) ↔
      ∀ n ∈ nodes, ∃ v, (e.node depth n).outcome = .ok v := by
  induction nodes with
  | nil => exact ⟨fun _ => by simp, fun _ => ⟨[], rfl⟩⟩
  | cons n nodes ih =>
    rw [List.forall_mem_cons, ← ih, arguments_cons]
    constructor
    · rintro ⟨values, h⟩
      obtain ⟨v, hv, h⟩ := bind_eq_ok_iff.1 h
      obtain ⟨more, hmore, -⟩ := bind_eq_ok_iff.1 h
      exact ⟨⟨v, hv⟩, ⟨more, hmore⟩⟩
    · rintro ⟨⟨v, hv⟩, ⟨more, hmore⟩⟩
      rw [hv, hmore]
      exact ⟨v :: more, rfl⟩

/-- arguments fail exactly as the first of them that fails -/
theorem arguments_error_iff {tag : String} {nodes : List Node} {err : EvalError} :
    (e.arguments depth tag (nodes.map Arg.node)).outcome = .error err ↔
      ∃ before n after, nodes = before ++ n :: after ∧ (∀ m ∈ before, ∃ v, (e.node depth m).outcome = .ok v) ∧
        (e.node depth n).outcome = .error err := by
  constructor
  · intro h
    induction nodes with
    | nil => cases h
    | cons n nodes ih =>
      rw [arguments_cons] at h
      rcases bind_eq_error_iff.1 h with h | ⟨v, hv, h⟩
      · exact ⟨[], n, nodes, rfl, by simp, h⟩
      · rcases bind_eq_error_iff.1 h with h | ⟨more, -, h⟩
        · obtain ⟨before, m, after, rfl, hbefore, hm⟩ := ih h
          exact ⟨n :: before, m, after, rfl, List.forall_mem_cons.2 ⟨⟨v, hv⟩, hbefore⟩, hm⟩
        · cases h
  · rintro ⟨before, n, after, rfl, hbefore, hn⟩
    induction before with
    | nil =>
      rw [List.nil_append, arguments_cons, hn]
      rfl
    | cons m before ih =>
      obtain ⟨⟨v, hv⟩, hbefore⟩ := List.forall_mem_cons.1 hbefore
      rw [List.cons_append, arguments_cons, hv, ih hbefore]
      rfl

/-- a tree with a value has no placeholder -/
theorem placeholderDepth?_of_ok {t : Node} (ht : t.Built) {v : Node} (h : (e.node depth t).outcome = .ok v) :
    t.placeholderDepth? = none := by
  induction ht generalizing depth v with
  | value tag text =>
    cases htag : isLeafTag tag with
    | true => exact Node.placeholderDepth?_leaf htag _
    | false =>
      rw [node_value htag] at h
      split_ifs at h
      split at h <;> cases h
  | @call name args hname _ ih =>
    have htag := isLeafTag_callable hname
    rw [node_call htag] at h
    split_ifs at h
    split at h
    · cases h
    · obtain ⟨values, hvalues, -⟩ := bind_eq_ok_iff.1 h
      have hfirst : firstPlaceholder? args = none := by
        rw [firstPlaceholder?, List.findSome?_eq_none_iff]
        intro n hn
        obtain ⟨v, hv⟩ := arguments_ok_iff.1 ⟨values, hvalues⟩ n hn
        exact ih n hn hv
      rw [Node.placeholderDepth?_call, hfirst, Option.map_none]

/-- **Only a placeholder is nested too deep**: in a tree whose levels are within the limit, evaluation is stopped for
nesting only by the first placeholder, right below the last level allowed -/
theorem placeholderDepth?_of_tooDeep {t : Node} (ht : t.Built) (hr : e.registry.NeverTooDeep) {limit above : Nat}
    (hlevels : above + t.levels ≤ e.maxDepth) (h : (e.node (above + 1) t).outcome = .error (.nestingTooDeep limit)) :
    t.placeholderDepth? = some (e.maxDepth - above) := by
  induction ht generalizing above with
  | value tag text =>
    cases htag : isLeafTag tag with
    | true =>
      rw [node_leaf htag] at h
      cases h
    | false =>
      rw [node_value htag] at h
      split_ifs at h with hdeep
      · have habove : e.maxDepth - above = 0 := by omega
        rw [Node.placeholderDepth?_value htag, habove]
      · split at h <;> cases h
  | @call name args hname hargs ih =>
    have htag := isLeafTag_callable hname
    rw [Node.levels_call] at hlevels
    have hwithin : Node.Within (e.maxDepth - (above + 1)) args := Node.mostLevels_le_iff.1 (by omega)
    rw [node_call htag, if_neg (by omega)] at h
    split at h
    · cases h
    · rename_i f hf
      rcases bind_eq_error_iff.1 h with h | ⟨values, -, h⟩
      · -- the argument that fails is the first with a placeholder, since those before it have values
        obtain ⟨before, n, after, rfl, hbefore, hn⟩ := arguments_error_iff.1 h
        have hmem : n ∈ before ++ n :: after := by simp
        have hlevel := hwithin n hmem
        have hfirst : firstPlaceholder? (before ++ n :: after) = some (e.maxDepth - (above + 1)) := by
          rw [firstPlaceholder?, List.findSome?_eq_some_iff]
          refine ⟨before, n, after, rfl, ih n hmem (by omega) hn, ?_⟩
          intro m hm
          obtain ⟨v, hv⟩ := hbefore m hm
          exact placeholderDepth?_of_ok (hargs m (List.mem_append_left _ hm)) hv
        have habove : e.maxDepth - (above + 1) + 1 = e.maxDepth - above := by omega
        rw [Node.placeholderDepth?_call, hfirst, Option.map_some, habove]
      · exact absurd h (hr name f hf values limit)

/-! ## Reaching the first placeholder -/

/-- every operator and function of the language gives null -/
def nulls (limit : Nat) : Evaluator := ⟨.nulls callable, limit⟩

theorem node_nulls {name : String} (hname : name ∈ callable) {limit : Nat} (hdepth : depth ≤ limit) (args : List Node) :
    ((nulls limit).node depth (.call name args)).outcome = do
      let _ ← ((nulls limit).arguments (depth + 1) name (args.map Arg.node)).outcome
      return .null := by
  have hget : (nulls limit).registry.get? name = some fun _ => .ok .null := Registry.get?_nulls hname
  have hlimit : ¬(nulls limit).maxDepth < depth := Nat.not_lt.2 hdepth
  rw [node_call (isLeafTag_callable hname), if_neg hlimit, hget]
  rfl

/-- where every function gives null, a tree without placeholders has a value -/
theorem exists_value_nulls {t : Node} (ht : t.Built) {limit above : Nat} (hlevels : above + t.levels ≤ limit)
    (h : t.placeholderDepth? = none) : ∃ v, ((nulls limit).node (above + 1) t).outcome = .ok v := by
  induction ht generalizing above with
  | value tag text =>
    cases htag : isLeafTag tag with
    | true => exact ⟨_, node_leaf htag _⟩
    | false =>
      rw [Node.placeholderDepth?_value htag] at h
      cases h
  | @call name args hname _ ih =>
    rw [Node.levels_call] at hlevels
    have hwithin : Node.Within (limit - (above + 1)) args := Node.mostLevels_le_iff.1 (by omega)
    rw [Node.placeholderDepth?_call, Option.map_eq_none_iff, firstPlaceholder?,
      List.findSome?_eq_none_iff] at h
    have hvalues : ∃ values, ((nulls limit).arguments (above + 1 + 1) name (args.map Arg.node)).outcome = .ok values := by
      rw [arguments_ok_iff]
      intro n hn
      have := hwithin n hn
      exact ih n hn (by omega) (h n hn)
    obtain ⟨values, hvalues⟩ := hvalues
    rw [node_nulls hname (by omega), hvalues]
    exact ⟨.null, rfl⟩

/-- where every function gives null, evaluation gets to the first placeholder -/
theorem tooDeep_nulls {t : Node} (ht : t.Built) {limit above : Nat} (hlevels : above + t.levels ≤ limit)
    (h : t.placeholderDepth? = some (limit - above)) :
    ((nulls limit).node (above + 1) t).outcome = .error (.nestingTooDeep limit) := by
  induction ht generalizing above with
  | value tag text =>
    cases htag : isLeafTag tag with
    | true =>
      rw [Node.placeholderDepth?_leaf htag] at h
      cases h
    | false =>
      rw [Node.placeholderDepth?_value htag] at h
      have hzero := Option.some.inj h
      have hdeep : (nulls limit).maxDepth < above + 1 := by
        change limit < above + 1
        omega
      rw [node_value htag, if_pos hdeep]
      rfl
  | @call name args hname hargs ih =>
    rw [Node.levels_call] at hlevels
    have hwithin : Node.Within (limit - (above + 1)) args := Node.mostLevels_le_iff.1 (by omega)
    rw [Node.placeholderDepth?_call] at h
    obtain ⟨w, hw, hsum⟩ := Option.map_eq_some_iff.1 h
    obtain ⟨before, n, after, rfl, hn, hbefore⟩ := List.findSome?_eq_some_iff.1 hw
    have herror : ((nulls limit).arguments (above + 1 + 1) name ((before ++ n :: after).map Arg.node)).outcome =
        .error (.nestingTooDeep limit) := by
      rw [arguments_error_iff]
      have hmem : n ∈ before ++ n :: after := by simp
      have hlevel := hwithin n hmem
      have hdepth : w = limit - (above + 1) := by omega
      refine ⟨before, n, after, rfl, ?_, ih n hmem (by omega) (hdepth ▸ hn)⟩
      intro m hm
      have hmem' : m ∈ before ++ n :: after := List.mem_append_left _ hm
      have hlevel' := hwithin m hmem'
      exact exists_value_nulls (hargs m hmem') (by omega) (hbefore m hm)
    rw [node_nulls hname (by omega), herror]
    rfl

end Evaluator

/-! ## Formulas -/

theorem Evaluator.eval_of_evalText {e : Evaluator} {t : Node} {limit : Nat}
    (h : e.evalText t = .error (.nestingTooDeep limit)) : e.eval t = .error (.nestingTooDeep limit) := by
  rw [evalText, traceText, Traced.outcome_bind] at h
  rcases bind_eq_error_iff.1 h with h | ⟨v, -, h⟩
  · exact h
  · rw [Traced.outcome_ofExcept, text] at h
    split at h <;> cases h

/-- the value of a formula that has a tree is the value of the tree -/
theorem Scope.evaluate_of_tree {s : Scope} {formula : String} {t : Node} (h : s.tree formula = .ok t) :
    s.evaluate formula = (Evaluator.evalText ⟨.builtin, s.maxDepth⟩ t).mapError Error.eval := by
  rw [tree] at h
  simp only [evaluate, traceValue, Traced.outcome_bind, h, Traced.outcome_mapError]
  rw [Evaluator.evalText]
  cases htext : (Evaluator.traceText ⟨.builtin, s.maxDepth⟩ t).outcome with
  | ok text => simp [bind, Except.bind, htext, Except.mapError]
  | error e => simp [bind, Except.bind, htext, Except.mapError]

theorem Scope.evalText_of_evaluate {s : Scope} {formula : String} {t : Node} (ht : s.tree formula = .ok t) {e : EvalError}
    (h : s.evaluate formula = .error (.eval e)) : Evaluator.evalText ⟨.builtin, s.maxDepth⟩ t = .error e := by
  rw [evaluate_of_tree ht] at h
  cases htext : Evaluator.evalText ⟨.builtin, s.maxDepth⟩ t with
  | ok text =>
    rw [htext] at h
    cases h
  | error e =>
    rw [htext] at h
    obtain rfl := Error.eval.inj (Except.error.inj h)
    rfl

theorem Scope.eval_of_evaluate {s : Scope} {formula : String} {t : Node} (ht : s.tree formula = .ok t) {limit : Nat}
    (h : s.evaluate formula = .error (.eval (.nestingTooDeep limit))) :
    Evaluator.eval ⟨.builtin, s.maxDepth⟩ t = .error (.nestingTooDeep limit) :=
  Evaluator.eval_of_evalText (evalText_of_evaluate ht h)

/-- **Parsed formulas exceed the limit only at a placeholder.** With some functions, none of which complains about nesting
itself, evaluation under the limit of the parse is stopped for nesting iff the first placeholder lies below exactly as many
levels as the limit allows. With the functions that come with the language it is stopped there or nowhere, and one level
more is always enough. -/
theorem nestingTooDeep_iff {s : Scope} {formula : String} {t : Node} (h : s.tree formula = .ok t) :
    ((∃ r limit, Registry.NeverTooDeep r ∧ Evaluator.eval ⟨r, s.maxDepth⟩ t = .error (.nestingTooDeep limit)) ↔
        t.placeholderDepth? = some s.maxDepth) ∧
      (∀ limit, s.evaluate formula = .error (.eval (.nestingTooDeep limit)) → t.placeholderDepth? = some s.maxDepth) ∧
      ∀ r, Registry.NeverTooDeep r → ∀ limit, Evaluator.eval ⟨r, s.maxDepth + 1⟩ t ≠ .error (.nestingTooDeep limit) := by
  obtain ⟨ht, hlevels⟩ := built_tree h
  have hstop : ∀ r, Registry.NeverTooDeep r → ∀ limit, Evaluator.eval ⟨r, s.maxDepth⟩ t = .error (.nestingTooDeep limit) →
      t.placeholderDepth? = some s.maxDepth := by
    intro r hr limit hdeep
    have hwithin : 0 + t.levels ≤ s.maxDepth := by omega
    exact Evaluator.placeholderDepth?_of_tooDeep ht hr hwithin hdeep
  refine ⟨⟨?_, ?_⟩, ?_, ?_⟩
  · rintro ⟨r, limit, hr, hdeep⟩
    exact hstop r hr limit hdeep
  · intro hfirst
    have hwithin : 0 + t.levels ≤ s.maxDepth := by omega
    exact ⟨.nulls callable, s.maxDepth, Registry.neverTooDeep_nulls callable, Evaluator.tooDeep_nulls ht hwithin hfirst⟩
  · intro limit hdeep
    exact hstop .builtin Registry.neverTooDeep_builtin limit (Scope.eval_of_evaluate h hdeep)
  · intro r hr limit hdeep
    have hwithin : 0 + t.levels ≤ s.maxDepth + 1 := by omega
    have hfirst := Evaluator.placeholderDepth?_of_tooDeep ht hr hwithin hdeep
    have hle : s.maxDepth + 1 ≤ t.levels := ht.placeholderDepth?_le hfirst
    omega

/-- a reserved word under a call, where the limit allows the call alone -/
theorem nestingTooDeep_reservedWord :
    Scope.tree ⟨[], 1⟩ "ABS(TRUE)" = .ok (.call "ABS" [.placeholder "TRUE"]) ∧
      Scope.evaluate ⟨[], 1⟩ "ABS(TRUE)" = .error (.eval (.nestingTooDeep 1)) ∧
      (Node.call "ABS" [.placeholder "TRUE"]).placeholderDepth? = some 1 ∧
      ∀ limit, Evaluator.eval ⟨.builtin, 2⟩ (.call "ABS" [.placeholder "TRUE"]) ≠ .error (.nestingTooDeep limit) := by
  have htree : Scope.tree ⟨[], 1⟩ "ABS(TRUE)" = .ok (.call "ABS" [.placeholder "TRUE"]) := by decide +kernel
  have hevaluate : Scope.evaluate ⟨[], 1⟩ "ABS(TRUE)" = .error (.eval (.nestingTooDeep 1)) := by decide +kernel
  obtain ⟨-, hstop, henough⟩ := nestingTooDeep_iff htree
  exact ⟨htree, hevaluate, hstop 1 hevaluate, henough .builtin Registry.neverTooDeep_builtin⟩

end Formula
