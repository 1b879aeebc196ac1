/-
A part of a tree may be replaced by its value.

Evaluation counts the nodes above the one that it is at, and only to compare their number with the limit. So a tree has the
same outcome further down in another tree as by itself, or it is stopped for its nesting there (`node_cutsOff`). A
`Context` is a tree with a hole below nodes that are no leaves: everything that evaluation can get to stands in such a hole.

`eval_fill`: if a part of a tree has a value by itself, and the tree is not nested too deep, then the tree has the same value
or error with that value in the place of the part.
-/
import Mathlib.Tactic
import Formula.Proofs.NestingLimit
import Formula.Proofs.ParsingLimit

namespace Formula

/-! ## Depth and limit -/

namespace Evaluator

/-- arguments are compared one by one -/
theorem arguments_cutsOff_cons {e e' : Evaluator} {stop : EvalError} {d d' : Nat} {tag : String} {n n' : Node}
    {rest rest' : List Arg} (hn : CutsOff stop (e.node d n).outcome (e'.node d' n').outcome)
    (hrest : CutsOff stop (e.arguments d tag rest).outcome (e'.arguments d' tag rest').outcome) :
    CutsOff stop (e.arguments d tag (.node n :: rest)).outcome (e'.arguments d' tag (.node n' :: rest')).outcome := by
  rw [arguments_node, arguments_node]
  apply hn.bind
  intro value
  apply hrest.bind
  intro more
  exact .refl _

variable {r : Registry} {m m' : Nat}

/-- nodes of one tag are compared by their arguments, where the second has as much room below the limit or more -/
theorem node_cutsOff_branch {tag : String} (htag : isLeafTag tag = false) {d d' : Nat} (h : m + d' ≤ m' + d)
    {args args' : List Arg}
    (hargs : CutsOff (.nestingTooDeep m) (arguments ⟨r, m⟩ (d + 1) tag args).outcome
      (arguments ⟨r, m'⟩ (d' + 1) tag args').outcome) :
    CutsOff (.nestingTooDeep m) (node ⟨r, m⟩ d ⟨tag, args⟩).outcome (node ⟨r, m'⟩ d' ⟨tag, args'⟩).outcome := by
  rw [node_branch htag, node_branch htag]
  by_cases hdeep : m < d
  · rw [if_pos hdeep]
    exact .inl rfl
  · have hroom : ¬m' < d' := by omega
    rw [if_neg hdeep, if_neg hroom]
    cases r.get? tag with
    | none => exact .refl _
    | some f =>
      apply hargs.bind
      intro values
      exact .refl _

mutual

/-- with as much room below the limit or more, a tree has the same outcome, unless it was stopped for its nesting -/
theorem node_cutsOff {d d' : Nat} (h : m + d' ≤ m' + d) (n : Node) :
    CutsOff (.nestingTooDeep m) (node ⟨r, m⟩ d n).outcome (node ⟨r, m'⟩ d' n).outcome := by
  match n with
  | ⟨tag, args⟩ =>
    cases htag : isLeafTag tag with
    | true =>
      rw [node_leaf htag, node_leaf htag]
      exact .refl _
    | false =>
      have hroom : m + (d' + 1) ≤ m' + (d + 1) := by omega
      exact node_cutsOff_branch htag h (arguments_cutsOff hroom tag args)

theorem arguments_cutsOff {d d' : Nat} (h : m + d' ≤ m' + d) (tag : String) (args : List Arg) :
    CutsOff (.nestingTooDeep m) (arguments ⟨r, m⟩ d tag args).outcome (arguments ⟨r, m'⟩ d' tag args).outcome := by
  match args with
  | [] => exact .refl _
  | .value text :: rest => exact .refl _
  | .node n :: rest => exact arguments_cutsOff_cons (node_cutsOff h n) (arguments_cutsOff h tag rest)

end

end Evaluator

/-! ## Contexts -/

/-- a tree with a hole, below nodes that are no leaves -/
inductive Context where
  | hole
  | under (tag : String) (htag : isLeafTag tag = false) (before : List Arg) (inner : Context) (after : List Arg)

namespace Context

/-- the tree with `n` in the place of the hole -/
def fill : Context → Node → Node
  | .hole, n => n
  | .under tag _ before inner after, n => ⟨tag, before ++ .node (inner.fill n) :: after⟩

end Context

namespace Evaluator

variable {e : Evaluator}

/-- arguments that differ in one place are compared there -/
theorem arguments_cutsOff_append {stop : EvalError} {depth : Nat} {tag : String} {n n' : Node}
    (h : CutsOff stop (e.node depth n).outcome (e.node depth n').outcome) (before after : List Arg) :
    CutsOff stop (e.arguments depth tag (before ++ .node n :: after)).outcome
      (e.arguments depth tag (before ++ .node n' :: after)).outcome := by
  induction before with
  | nil => exact arguments_cutsOff_cons h (.refl _)
  | cons arg before ih =>
    cases arg with
    | value text => exact .refl _
    | node k => exact arguments_cutsOff_cons (.refl _) ih

/-- **A hole takes a part or its value alike**, unless the part is stopped for its nesting -/
theorem node_fill {s l : Node} (hs : e.eval s = .ok l) (hl : l.isLeaf = true) (c : Context) {depth : Nat}
    (hdepth : 1 ≤ depth) :
    CutsOff (.nestingTooDeep e.maxDepth) (e.node depth (c.fill s)).outcome (e.node depth (c.fill l)).outcome := by
  induction c generalizing depth with
  | hole =>
    -- by itself the part is evaluated at depth 1, with more room than in the hole
    obtain ⟨tag, args⟩ := l
    have halone : (e.node 1 s).outcome = (e.node depth ⟨tag, args⟩).outcome := hs.trans (node_leaf hl args).symm
    rw [Context.fill, Context.fill, ← halone]
    exact node_cutsOff (by omega) s
  | under tag htag before inner after ih =>
    have hinner := ih (Nat.le_add_left 1 depth)
    exact node_cutsOff_branch htag le_rfl (arguments_cutsOff_append hinner before after)

end Evaluator

/-- **Referential transparency.** A part of a tree that has a leaf as its value by itself may be replaced by this leaf: if
the tree was not nested too deep, it has the same value or the same error as before. -/
theorem eval_fill {e : Evaluator} {c : Context} {s l : Node} (hs : e.eval s = .ok l) (hl : l.isLeaf = true)
    (hdeep : e.eval (c.fill s) ≠ .error (.nestingTooDeep e.maxDepth)) : e.eval (c.fill l) = e.eval (c.fill s) := by
  rcases Evaluator.node_fill hs hl c (le_refl 1) with hstop | hsame
  · exact absurd hstop hdeep
  · exact hsame.symm

/-- `CONCAT(ABS(…), LTRIM())`, which complains about the last call -/
def complaining : Context :=
  .under "CONCAT" (by decide +kernel) [] (.under "ABS" (by decide +kernel) [] .hole []) [.node (.call "LTRIM" [])]

/-- the complaint stays the same when a part before it is replaced by its value -/
theorem eval_fill_complaining :
    Evaluator.eval ⟨.builtin, 3⟩ (.call "ABS" [.number "-1.000000"]) = .ok (.number "1.000000") ∧
      Evaluator.eval ⟨.builtin, 3⟩ (complaining.fill (.number "1.000000")) = .error (.arity "LTRIM" (.either 1 2) 0) ∧
      Evaluator.eval ⟨.builtin, 3⟩ (complaining.fill (.call "ABS" [.number "-1.000000"])) =
        .error (.arity "LTRIM" (.either 1 2) 0) := by
  have hpart : Evaluator.eval ⟨.builtin, 3⟩ (.call "ABS" [.number "-1.000000"]) = .ok (.number "1.000000") := by
    decide +kernel
  have hwhole : Evaluator.eval ⟨.builtin, 3⟩ (complaining.fill (.call "ABS" [.number "-1.000000"])) =
      .error (.arity "LTRIM" (.either 1 2) 0) := by
    decide +kernel
  have hsame := eval_fill (c := complaining) hpart rfl (by rw [hwhole]; nofun)
  exact ⟨hpart, hsame.trans hwhole, hwhole⟩

end Formula
