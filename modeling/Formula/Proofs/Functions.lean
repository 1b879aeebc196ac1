/-
What the functions that come with the language answer.

An outcome is a result with some property or an error of some kind (`Ends`). Whatever it is called on, a function that
comes with the language gives a value, or it complains about its arguments: about their number, about a text that is no
number or no code of a character, or about an argument without a text, which then is among those that it was called on
(`Registry.ends_builtin`).
-/
import Mathlib.Tactic
import Formula.Registry.Builtin
import Formula.Proofs.CanonicalText

namespace Formula

/-! ## Outcomes -/

/-- a result with the property `P`, or an error with the property `E` -/
def Ends {α : Type} (P : α → Prop) (E : EvalError → Prop) : Except EvalError α → Prop
  | .ok a => P a
  | .error e => E e

namespace Ends

variable {α β : Type} {P : α → Prop} {Q : β → Prop} {E F : EvalError → Prop}

theorem bind {x : Except EvalError α} {f : α → Except EvalError β} (hx : Ends P E x) (hf : ∀ a, P a → Ends Q E (f a)) :
    Ends Q E (x >>= f) := by
  cases x with
  | error e => exact hx
  | ok a => exact hf a hx

theorem mono {x : Except EvalError α} (hx : Ends P E x) (h : ∀ e, E e → F e) : Ends P F x := by
  cases x with
  | error e => exact h e hx
  | ok a => exact hx

end Ends

/-! ## Values -/

namespace Node

/-- a number, string or null with one text; that of a number is canonical -/
def IsValue (n : Node) : Prop := ∃ kind text, n = .leaf kind text ∧ (kind = .number → canonicalize text = some text)

@[simp]
theorem isNull_leaf (kind : LeafKind) (text : String) : (leaf kind text).isNull = decide (kind = .null) := by
  cases kind <;> rfl

theorem isValue_null : null.IsValue := ⟨.null, LeafKind.null.tag, rfl, by simp⟩

theorem isValue_string (text : String) : (string text).IsValue := ⟨.string, text, rfl, by simp⟩

theorem isValue_number {x : Binary64} (hbound : x.units < Binary64.bound)
    (hrepresentable : Binary64.Representable x.units) : (number x.canonical).IsValue :=
  ⟨.number, x.canonical, rfl, fun _ => canonicalize_canonical hbound hrepresentable⟩

theorem IsValue.exists_value {n : Node} (h : n.IsValue) : ∃ text, n.value? = some text := by
  obtain ⟨kind, text, rfl, -⟩ := h
  exact ⟨text, rfl⟩

end Node

/-! ## Functions -/

/-- an error that a function can raise when it is called on `args` -/
inductive Complains (args : List Node) : EvalError → Prop where
  | arity (function : String) (expected : Arity) (got : Nat) : Complains args (.arity function expected got)
  | number (function text : String) : Complains args (.invalidNumber function text)
  | codepoint (function : String) (value : Int) : Complains args (.invalidCodepoint function value)
  | missing (function : String) {n : Node} (hn : n ∈ args) (h : n.value? = none) :
      Complains args (.missingValue function n.tag)

namespace Builtin

variable {args : List Node} {n : Node}

theorem ends_payload (function : String) (hn : n ∈ args) :
    Ends (fun _ => True) (Complains args) (payload function n) := by
  unfold payload
  cases h : n.value? with
  | some text => exact trivial
  | none => exact .missing function hn h

@[simp]
theorem payload_leaf (function : String) (kind : LeafKind) (text : String) :
    payload function (.leaf kind text) = .ok text := rfl

theorem number_leaf (function : String) (kind : LeafKind) (text : String) :
    number function (.leaf kind text) =
      match readNumber? text with
      | some x => .ok x
      | none => .error (.invalidNumber function text) := rfl

/-- a number that was read from an argument can be written again -/
theorem ends_number (function : String) (hn : n ∈ args) :
    Ends (fun x => x.units < Binary64.bound ∧ Binary64.Representable x.units) (Complains args) (number function n) := by
  apply (ends_payload function hn).bind
  intro text _
  cases hread : readNumber? text with
  | none => exact .number function text
  | some x => exact representable_readNumber? hread

theorem ends_abs (args : List Node) : Ends Node.IsValue (Complains args) (abs args) := by
  unfold abs
  split
  · split_ifs
    · exact Node.isValue_null
    · apply (ends_number _ List.mem_cons_self).bind
      intro x hx
      exact Node.isValue_number hx.1 hx.2
  · exact .arity _ _ _

theorem ends_chr (args : List Node) : Ends Node.IsValue (Complains args) (chr args) := by
  unfold chr
  split
  · split_ifs
    · exact Node.isValue_null
    · apply (ends_number _ List.mem_cons_self).bind
      intro x _
      dsimp only
      split
      · exact Node.isValue_string _
      · exact .codepoint _ _
  · exact .arity _ _ _

theorem ends_concat (args : List Node) : Ends Node.IsValue (Complains args) (concat args) := by
  unfold concat
  split
  · rename_i first second
    have hfirst : first ∈ [first, second] := by simp
    have hsecond : second ∈ [first, second] := by simp
    split
    · exact Node.isValue_null
    · apply (ends_payload _ hsecond).bind
      intro text _
      exact Node.isValue_string text
    · apply (ends_payload _ hfirst).bind
      intro text _
      exact Node.isValue_string text
    · apply (ends_payload _ hfirst).bind
      intro head _
      apply (ends_payload _ hsecond).bind
      intro tail _
      exact Node.isValue_string _
  · exact .arity _ _ _

theorem ends_trimWith (function : String) (cut : List Char → List Char → List Char) (args : List Node) :
    Ends Node.IsValue (Complains args) (trimWith function cut args) := by
  unfold trimWith
  split
  · split_ifs
    · exact Node.isValue_null
    · apply (ends_payload _ List.mem_cons_self).bind
      intro text _
      exact Node.isValue_string _
  · rename_i text set
    have htext : text ∈ [text, set] := by simp
    have hset : set ∈ [text, set] := by simp
    split_ifs
    · exact Node.isValue_null
    · apply (ends_payload _ hset).bind
      intro set _
      apply (ends_payload _ htext).bind
      intro text _
      exact Node.isValue_string _
  · exact .arity _ _ _

end Builtin

/-! ## Registered functions -/

namespace Registry

/-- every registered function has the property `P` -/
def All (P : Implementation → Prop) (r : Registry) : Prop := ∀ name f, r.get? name = some f → P f

theorem get?_register (r : Registry) (name other : String) (f : Implementation) :
    (r.register name f).get? other = if name = other then some f else r.get? other := by
  simp only [get?, register, Std.TreeMap.getElem?_insert, Std.compare_eq_iff_eq]

variable {P : Implementation → Prop}

theorem all_empty : empty.All P := by
  intro name f hf
  simp [get?, empty] at hf

theorem All.register {r : Registry} (h : r.All P) (name : String) {f : Implementation} (hf : P f) :
    (r.register name f).All P := by
  intro other g hg
  rw [get?_register] at hg
  split_ifs at hg with hname
  · obtain rfl := Option.some.inj hg
    exact hf
  · exact h other g hg

/-- **The functions that come with the language give values or complain about their arguments** -/
theorem ends_builtin : builtin.All fun f => ∀ args, Ends Node.IsValue (Complains args) (f args) :=
  ((((all_empty.register _ Builtin.ends_abs).register _ Builtin.ends_chr).register
    _ Builtin.ends_concat).register _ (Builtin.ends_trimWith _ _)).register _ (Builtin.ends_trimWith _ _)

end Registry

end Formula
