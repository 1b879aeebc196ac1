/-
What the nesting limit does to evaluation.

The evaluator looks at its limit whenever it comes to a node that is no leaf, before it looks for a function, and it counts
the nodes that it went through on the way there. A larger limit lets through all that a smaller one does, so evaluation
goes the same way under both until the smaller one stops it (`Evaluator.node_cutsOff`). And what is stopped stands at the
lower end of nodes that are nested in each other, with one node more than the limit allows (`Evaluator.exists_descent`).

`eval_limit`: a limit only cuts off, and never where all chains of nested nodes are within it.
-/
import Mathlib.Tactic
import Formula.Proofs.Contexts

namespace Formula

/-! ## Nested nodes -/

namespace Node

theorem mem_children {n k : Node} : k ∈ n.children ↔ .node k ∈ n.args := by
  rw [children, List.mem_filterMap]
  constructor
  · intro h
    obtain ⟨arg, harg, heq⟩ := h
    cases arg with
    | value text => simp at heq
    | node m =>
      obtain rfl := Option.some.inj heq
      exact harg
  · intro h
    exact ⟨.node k, h, rfl⟩

/-- nodes that are no leaves, each of them right below the one before, from `root` on -/
structure Descent (root : Node) (chain : List Node) : Prop where
  head : chain.head? = some root
  branches : ∀ n ∈ chain, n.isLeaf = false
  nested : chain.IsChain fun outer inner => inner ∈ outer.children

theorem descent_single {n : Node} (h : n.isLeaf = false) : n.Descent [n] where
  head := rfl
  branches := by simpa using h
  nested := .singleton n

/-- a descent from an argument is one from the node above it -/
theorem Descent.under {n k : Node} {chain : List Node} (h : k.Descent chain) (hn : n.isLeaf = false)
    (hk : .node k ∈ n.args) : n.Descent (n :: chain) where
  head := rfl
  branches := List.forall_mem_cons.2 ⟨hn, h.branches⟩
  nested := by
    refine List.isChain_cons.2 ⟨?_, h.nested⟩
    intro m hm
    obtain rfl : k = m := Option.some.inj (h.head.symm.trans hm)
    exact mem_children.2 hk

end Node

/-! ## Stopped evaluation -/

namespace Evaluator

variable {e : Evaluator} {limit : Nat}

mutual

/-- **What is nested too deep stands below too many nodes**, if no function complains about nesting itself: some descent goes
on for longer than the levels that are left at this depth -/
theorem exists_descent (hr : e.registry.NeverTooDeep) (depth : Nat) (n : Node)
    (h : (e.node depth n).outcome = .error (.nestingTooDeep limit)) :
    ∃ chain, n.Descent chain ∧ e.maxDepth + 1 < depth + chain.length := by
  match n with
  | ⟨tag, args⟩ =>
    cases htag : isLeafTag tag with
    | true =>
      rw [node_leaf htag] at h
      cases h
    | false =>
      rw [node_branch htag] at h
      split_ifs at h with hdeep
      · exact ⟨_, Node.descent_single htag, by simpa using hdeep⟩
      · cases hget : e.registry.get? tag with
        | none => simp [hget] at h
        | some f =>
          rw [hget] at h
          rcases bind_eq_error_iff.1 h with hargs | ⟨values, -, hf⟩
          · obtain ⟨k, hk, chain, hchain, hlong⟩ := exists_descent_arguments hr (depth + 1) tag args hargs
            refine ⟨_, hchain.under htag hk, ?_⟩
            rw [List.length_cons]
            omega
          · exact absurd hf (hr tag f hget values limit)

theorem exists_descent_arguments (hr : e.registry.NeverTooDeep) (depth : Nat) (tag : String) (args : List Arg)
    (h : (e.arguments depth tag args).outcome = .error (.nestingTooDeep limit)) :
    ∃ k, .node k ∈ args ∧ ∃ chain, k.Descent chain ∧ e.maxDepth + 1 < depth + chain.length := by
  match args with
  | [] => cases h
  | .value text :: rest => cases h
  | .node n :: rest =>
    rw [arguments_node] at h
    rcases bind_eq_error_iff.1 h with hn | ⟨value, -, h⟩
    · exact ⟨n, List.mem_cons_self, exists_descent hr depth n hn⟩
    · rcases bind_eq_error_iff.1 h with hrest | ⟨more, -, h⟩
      · obtain ⟨k, hk, hdescent⟩ := exists_descent_arguments hr depth tag rest hrest
        exact ⟨k, List.mem_cons_of_mem _ hk, hdescent⟩
      · cases h

end

end Evaluator

/-- **The limit of evaluation only cuts off.** Under the smaller of two limits, a tree is nested too deep for it or has the
same outcome as under the larger one. It is not nested too deep if no descent through nodes that are no leaves has more
nodes than the limit. -/
theorem eval_limit {r : Registry} (hr : r.NeverTooDeep) (t : Node) :
    (∀ m m', m ≤ m' → Evaluator.eval ⟨r, m⟩ t = .error (.nestingTooDeep m) ∨
      Evaluator.eval ⟨r, m⟩ t = Evaluator.eval ⟨r, m'⟩ t) ∧
      ∀ m, (∀ chain, t.Descent chain → chain.length ≤ m) →
        ∀ limit, Evaluator.eval ⟨r, m⟩ t ≠ .error (.nestingTooDeep limit) := by
  constructor
  · intro m m' h
    exact Evaluator.node_cutsOff (Nat.add_le_add_right h 1) t
  · intro m hwithin limit hdeep
    obtain ⟨chain, hchain, hlong⟩ := Evaluator.exists_descent hr 1 t hdeep
    have hle := hwithin chain hchain
    simp only at hlong
    omega

/-- a call on a number that holds a call instead of a text -/
def hollowNumber : Node := .call "ABS" [⟨"NUMBER", [.node (.call "ABS" [.null])]⟩]

theorem length_descent_hollowNumber {chain : List Node} (h : hollowNumber.Descent chain) : chain.length ≤ 1 := by
  obtain ⟨hhead, hbranches, hnested⟩ := h
  match chain with
  | [] => cases hhead
  | [n] => exact le_rfl
  | n :: k :: rest =>
    obtain rfl := Option.some.inj hhead
    have hk : k ∈ hollowNumber.children := (List.isChain_cons_cons.1 hnested).1
    obtain rfl : k = ⟨"NUMBER", [.node (.call "ABS" [.null])]⟩ := by
      simpa [hollowNumber, Node.call, Node.children] using hk
    have hbranch := hbranches _ (List.mem_cons_of_mem _ List.mem_cons_self)
    cases hbranch

/-- one level is enough where a leaf is in between, and two calls in each other are cut off by it -/
theorem eval_limit_hollowNumber :
    Evaluator.eval ⟨.builtin, 1⟩ hollowNumber = .error (.missingValue "ABS" "NUMBER") ∧
      Evaluator.eval ⟨.builtin, 1⟩ hollowNumber = Evaluator.eval ⟨.builtin, 9⟩ hollowNumber ∧
      (∀ limit, Evaluator.eval ⟨.builtin, 1⟩ hollowNumber ≠ .error (.nestingTooDeep limit)) ∧
      Evaluator.eval ⟨.builtin, 1⟩ (.call "ABS" [.call "ABS" [.null]]) = .error (.nestingTooDeep 1) ∧
      Evaluator.eval ⟨.builtin, 2⟩ (.call "ABS" [.call "ABS" [.null]]) = .ok .null := by
  have hvalue : Evaluator.eval ⟨.builtin, 1⟩ hollowNumber = .error (.missingValue "ABS" "NUMBER") := by decide +kernel
  obtain ⟨hcut, hwithin⟩ := eval_limit Registry.neverTooDeep_builtin hollowNumber
  have hnot := hwithin 1 fun chain => length_descent_hollowNumber
  have hsame := (hcut 1 9 (by decide)).resolve_left (hnot 1)
  exact ⟨hvalue, hsame, hnot, by decide +kernel, by decide +kernel⟩

end Formula
