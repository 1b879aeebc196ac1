/-
Which functions a value depends on.

Evaluation asks the registry for the tags of the nodes that it comes to, and for nothing else: a node that a function gives
back is not evaluated again. It comes to no node below a leaf, so the tags of the nodes that stand below no leaf decide
everything (`Evaluator.node_congr`). Where there is a value, all of these have functions (`Evaluator.reached_of_ok`), and
registering more functions under other names changes nothing.

`eval_names`: registries that agree on the functions that a tree names give it the same outcome, and a value stays the same
when a registry is extended.
-/
import Mathlib.Tactic
import Formula.Proofs.Reached

namespace Formula

/-! ## Names -/

namespace Node

/-- a node of the tree that is no leaf is tagged so -/
def Names (t : Node) (name : String) : Prop := isLeafTag name = false ∧ ∃ n : Node, n.PartOf t ∧ n.tag = name

theorem partOf_fill (c : Context) (n : Node) : n.PartOf (c.fill n) := by
  induction c with
  | hole => exact .whole
  | under tag htag before inner after ih => exact .child (by simp) ih

/-- what evaluation can come to is part of the tree -/
theorem Reaches.names {t : Node} {name : String} (h : t.Reaches name) (hname : isLeafTag name = false) : t.Names name := by
  obtain ⟨c, n, rfl, htag⟩ := h
  exact ⟨hname, n, partOf_fill c n, htag⟩

end Node

namespace Registry

/-- the two registries have the same function, or none, under each of these names -/
def AgreeOn (names : String → Prop) (r r' : Registry) : Prop := ∀ name, names name → r.get? name = r'.get? name

/-- `r'` has every function of `r` under the same name -/
def ExtendedBy (r r' : Registry) : Prop := ∀ name f, r.get? name = some f → r'.get? name = some f

theorem extendedBy_register {r : Registry} {name : String} (h : r.get? name = none) (f : Implementation) :
    r.ExtendedBy (r.register name f) := by
  intro other g hg
  rw [get?_register]
  split_ifs with hname
  · rw [← hname, h] at hg
    cases hg
  · exact hg

end Registry

/-! ## Evaluation -/

namespace Evaluator

variable {r r' : Registry} {limit : Nat}

mutual

/-- **Evaluation asks only for the tags of nodes that it can come to** -/
theorem node_congr (depth : Nat) (n : Node) (h : r.AgreeOn (fun name => isLeafTag name = false ∧ n.Reaches name) r') :
    node ⟨r, limit⟩ depth n = node ⟨r', limit⟩ depth n := by
  match n with
  | ⟨tag, args⟩ =>
    cases htag : isLeafTag tag with
    | true => rw [node, node, if_pos htag, if_pos htag]
    | false =>
      have hget : r.get? tag = r'.get? tag := h tag ⟨htag, Node.reaches_self _⟩
      have hargs := arguments_congr (depth + 1) tag args fun k hk name hname =>
        h name ⟨hname.1, hname.2.child htag hk⟩
      simp only [node, hget, hargs]

theorem arguments_congr (depth : Nat) (tag : String) (args : List Arg)
    (h : ∀ k, .node k ∈ args → r.AgreeOn (fun name => isLeafTag name = false ∧ k.Reaches name) r') :
    arguments ⟨r, limit⟩ depth tag args = arguments ⟨r', limit⟩ depth tag args := by
  match args with
  | [] => rw [arguments, arguments]
  | .value text :: rest => rw [arguments, arguments]
  | .node n :: rest =>
    have hn := node_congr depth n (h n List.mem_cons_self)
    have hrest := arguments_congr depth tag rest fun k hk => h k (List.mem_cons_of_mem _ hk)
    rw [arguments, arguments, hn, hrest]

end

/-- reports included, a tree is evaluated in the same way with the functions that it names -/
theorem trace_congr {t : Node} (h : r.AgreeOn t.Names r') : trace ⟨r, limit⟩ t = trace ⟨r', limit⟩ t := by
  apply node_congr
  intro name hname
  exact h name (hname.2.names hname.1)

/-- the names that a value depends on have functions, and keep them in an extension -/
theorem eval_extendedBy (hext : r.ExtendedBy r') {t v : Node} (h : eval ⟨r, limit⟩ t = .ok v) :
    eval ⟨r', limit⟩ t = .ok v := by
  have hagree : r.AgreeOn (fun name => isLeafTag name = false ∧ t.Reaches name) r' := by
    intro name hname
    obtain ⟨hbranch, c, n, rfl, rfl⟩ := hname
    rcases reached_of_ok h with hleaf | ⟨hsome, -⟩
    · simp [Node.isLeaf, hbranch] at hleaf
    · obtain ⟨f, hf⟩ := Option.isSome_iff_exists.1 hsome
      exact hf.trans (hext n.tag f hf).symm
  have hnode : node ⟨r, limit⟩ 1 t = node ⟨r', limit⟩ 1 t := node_congr 1 t hagree
  rw [eval, trace, ← hnode]
  exact h

end Evaluator

/-- **Values depend on the functions that are named.** Two registries that agree on the names in a tree give it the same
outcome, as a node and as a text, under every limit. A tree that has a value keeps it in every extension of the registry. -/
theorem eval_names (r r' : Registry) (limit : Nat) (t : Node) :
    ((∀ name, t.Names name → r.get? name = r'.get? name) →
        Evaluator.eval ⟨r, limit⟩ t = Evaluator.eval ⟨r', limit⟩ t ∧
          Evaluator.evalText ⟨r, limit⟩ t = Evaluator.evalText ⟨r', limit⟩ t) ∧
      (r.ExtendedBy r' → ∀ v, Evaluator.eval ⟨r, limit⟩ t = .ok v → Evaluator.eval ⟨r', limit⟩ t = .ok v) := by
  constructor
  · intro h
    have htrace : Evaluator.trace ⟨r, limit⟩ t = Evaluator.trace ⟨r', limit⟩ t := Evaluator.trace_congr h
    constructor
    · rw [Evaluator.eval, Evaluator.eval, htrace]
    · rw [Evaluator.evalText, Evaluator.evalText, Evaluator.traceText, Evaluator.traceText, htrace]
  · intro hext v h
    exact Evaluator.eval_extendedBy hext h

/-- one function, which gives a call back -/
def deferring : Registry := Registry.empty.register "LATER" fun _ => .ok (.call "NOW" [])

/-- the call that comes back is no value, and stays as it is where its function is registered -/
theorem eval_names_deferring :
    Evaluator.eval ⟨deferring, 1⟩ (.call "LATER" []) = .ok (.call "NOW" []) ∧
      Evaluator.eval ⟨deferring.register "NOW" fun _ => .ok .null, 1⟩ (.call "LATER" []) = .ok (.call "NOW" []) ∧
      Evaluator.evalText ⟨deferring, 1⟩ (.call "LATER" []) = .error (.notReduced "NOW") ∧
      Evaluator.evalText ⟨deferring.register "NOW" fun _ => .ok .null, 1⟩ (.call "LATER" []) =
        .error (.notReduced "NOW") := by
  have hvalue : Evaluator.eval ⟨deferring, 1⟩ (.call "LATER" []) = .ok (.call "NOW" []) := by decide +kernel
  have htext : Evaluator.evalText ⟨deferring, 1⟩ (.call "LATER" []) = .error (.notReduced "NOW") := by decide +kernel
  have hnone : deferring.get? "NOW" = none := rfl
  have hnamed : ∀ name, (Node.call "LATER" []).Names name →
      deferring.get? name = (deferring.register "NOW" fun _ => .ok .null).get? name := by
    intro name h
    obtain ⟨-, n, hn, rfl⟩ := h
    rcases Node.partOf_call hn with rfl | ⟨k, hk, -⟩
    · rfl
    · simp at hk
  obtain ⟨hagree, hextended⟩ :=
    eval_names deferring (deferring.register "NOW" fun _ => .ok .null) 1 (.call "LATER" [])
  have hsame := (hagree hnamed).2
  exact ⟨hvalue, hextended (Registry.extendedBy_register hnone _) _ hvalue, htext, hsame.symm.trans htext⟩

end Formula
