/-
Absolute values as text.

A number is held with its sign apart from its magnitude, and it is written as a sign and the digits of the magnitude
(`toList_canonical`). So the absolute value is written as the number without its minus sign (`canonical_abs`), whatever
rounding has done to the magnitude, and what is read from that text is written in the same way again.

`eval_abs`: `ABS` refuses the texts that have no canonical form, gives the canonical form without its minus sign for the
others, and changes nothing when it is applied again.
-/
import Mathlib.Tactic
import Formula.Proofs.Contexts

namespace Formula

/-- a text without a minus sign in front -/
def withoutMinus (text : String) : String :=
  match text.toList with
  | '-' :: rest => String.ofList rest
  | _ => text

namespace Binary64

theorem abs_abs (x : Binary64) : x.abs.abs = x.abs := rfl

theorem abs_of_not_negative {x : Binary64} (h : x.negative = false) : x.abs = x := by
  rw [abs, ← h]

theorem signText_true_append (cs : List Char) : signText true ++ cs = '-' :: (signText false ++ cs) := rfl

/-- **The absolute value is written as the number without its minus sign** -/
theorem canonical_abs (x : Binary64) : x.abs.canonical = withoutMinus x.canonical := by
  cases hsign : x.negative with
  | true =>
    have hunits : x.abs.units = x.units := rfl
    have hpositive : x.abs.negative = false := rfl
    have htext : x.canonical.toList = '-' :: x.abs.canonical.toList := by
      rw [toList_canonical, toList_canonical, hsign, hunits, hpositive, signText_true_append]
    simp only [withoutMinus, htext, String.ofList_toList]
  | false =>
    obtain ⟨whole, fraction, hshape, -⟩ := fixedPoint_shape (roundHalfEven (x.units * 10 ^ 6) one)
    obtain ⟨c, cs, hcs, hdigit⟩ := hshape.exists_digit
    have htext : x.canonical.toList = c :: cs := by
      rw [toList_canonical, hsign, hcs]
      rfl
    -- a digit comes first
    have hminus : c ≠ '-' := ne_of_isDigit hdigit rfl
    rw [abs_of_not_negative hsign, withoutMinus, htext]
    split
    · rename_i rest heq
      exact absurd (List.cons.inj heq).1 hminus
    · rfl

end Binary64

namespace Builtin

theorem abs_of_isNull_false {v : Node} (h : v.isNull = false) :
    abs [v] = number "ABS" v >>= fun x => .ok (.number x.abs.canonical) := by
  rw [abs, h, if_neg Bool.false_ne_true]
  rfl

/-- `ABS` on a value that is not null -/
theorem abs_leaf {kind : LeafKind} (hkind : kind ≠ .null) (text : String) :
    abs [.leaf kind text] =
      match canonicalize text with
      | none => .error (.invalidNumber "ABS" text)
      | some canonical => .ok (.number (withoutMinus canonical)) := by
  rw [abs_of_isNull_false (by simp [hkind]), number_leaf, canonicalize]
  cases readNumber? text with
  | none => rfl
  | some x =>
    simp only [Option.map_some, ← Binary64.canonical_abs]
    rfl

/-- a number that was written without its sign stays as it is -/
theorem abs_canonical {x : Binary64} (hbound : x.units < Binary64.bound)
    (hrepresentable : Binary64.Representable x.units) :
    abs [.number x.abs.canonical] = .ok (.number x.abs.canonical) := by
  have hcanonical : canonicalize x.abs.canonical = some x.abs.canonical := canonicalize_canonical hbound hrepresentable
  have htext : withoutMinus x.abs.canonical = x.abs.canonical := by rw [← Binary64.canonical_abs, Binary64.abs_abs]
  rw [Node.number, abs_leaf (by decide), hcanonical]
  simp only [htext, Node.number]

/-- **`ABS` changes nothing when it is applied again** -/
theorem abs_idempotent (v : Node) : (abs [v] >>= fun w => abs [w]) = abs [v] := by
  cases hnull : v.isNull with
  | true =>
    have hvalue : abs [v] = .ok .null := by rw [abs, if_pos hnull]
    rw [hvalue]
    rfl
  | false =>
    have hends := ends_number "ABS" (List.mem_singleton_self v)
    cases hnumber : number "ABS" v with
    | error e =>
      rw [abs_of_isNull_false hnull, hnumber]
      rfl
    | ok x =>
      have hvalue : abs [v] = .ok (.number x.abs.canonical) := by
        rw [abs_of_isNull_false hnull, hnumber]
        rfl
      rw [hnumber] at hends
      rw [hvalue]
      exact bind_eq_ok_iff.2 ⟨_, rfl, abs_canonical hends.1 hends.2⟩

end Builtin

namespace Evaluator

theorem node_abs (limit depth : Nat) (x : Node) :
    (node ⟨.builtin, limit⟩ depth (.call "ABS" [x])).outcome =
      if limit < depth then .error (.nestingTooDeep limit)
      else (node ⟨.builtin, limit⟩ (depth + 1) x).outcome >>= fun v => Builtin.abs [v] := by
  have hget : Registry.builtin.get? "ABS" = some Builtin.abs := rfl
  rw [node_registered (by decide +kernel) hget, arguments_single, bind_assoc]
  rfl

/-- with room for both, one `ABS` in another is a single one whose argument stands a level lower -/
theorem eval_abs_abs (limit : Nat) (x : Node) :
    eval ⟨.builtin, limit + 2⟩ (.call "ABS" [.call "ABS" [x]]) =
      (node ⟨.builtin, limit + 2⟩ 3 x).outcome >>= fun v => Builtin.abs [v] := by
  rw [eval, trace, node_abs, node_abs, if_neg (by omega), if_neg (by omega), bind_assoc]
  simp only [Builtin.abs_idempotent]

end Evaluator

/-- **Absolute values as text.** `ABS` of a value that is not null is an invalid number if the text of the value has no
canonical form, and otherwise the number with the canonical form without its minus sign. Applied again it changes nothing:
to a value in any case, and to any other part of a formula unless the nesting is too deep. -/
theorem eval_abs (limit : Nat) :
    (∀ kind text, kind ≠ .null →
      Evaluator.eval ⟨.builtin, limit + 1⟩ (.call "ABS" [.leaf kind text]) =
        match canonicalize text with
        | none => .error (.invalidNumber "ABS" text)
        | some canonical => .ok (.number (withoutMinus canonical))) ∧
      (∀ kind text, Evaluator.eval ⟨.builtin, limit + 2⟩ (.call "ABS" [.call "ABS" [.leaf kind text]]) =
        Evaluator.eval ⟨.builtin, limit + 2⟩ (.call "ABS" [.leaf kind text])) ∧
      ∀ x, Evaluator.eval ⟨.builtin, limit + 2⟩ (.call "ABS" [.call "ABS" [x]]) ≠ .error (.nestingTooDeep (limit + 2)) →
        Evaluator.eval ⟨.builtin, limit + 2⟩ (.call "ABS" [.call "ABS" [x]]) =
          Evaluator.eval ⟨.builtin, limit + 2⟩ (.call "ABS" [x]) := by
  have hsingle : ∀ n x, Evaluator.eval ⟨.builtin, n + 1⟩ (.call "ABS" [x]) =
      (Evaluator.node ⟨.builtin, n + 1⟩ 2 x).outcome >>= fun v => Builtin.abs [v] := by
    intro n x
    rw [Evaluator.eval, Evaluator.trace, Evaluator.node_abs, if_neg (by omega)]
  refine ⟨?_, ?_, ?_⟩
  · intro kind text hkind
    rw [hsingle, Evaluator.node_ofKind]
    exact Builtin.abs_leaf hkind text
  · intro kind text
    rw [Evaluator.eval_abs_abs, hsingle, Evaluator.node_ofKind, Evaluator.node_ofKind]
  · intro x hdeep
    rw [Evaluator.eval_abs_abs] at hdeep ⊢
    rw [hsingle]
    have hroom : limit + 2 + 2 ≤ limit + 2 + 3 := by omega
    have hcut : CutsOff (.nestingTooDeep (limit + 2))
        ((Evaluator.node ⟨.builtin, limit + 2⟩ 3 x).outcome >>= fun v => Builtin.abs [v])
        ((Evaluator.node ⟨.builtin, limit + 2⟩ 2 x).outcome >>= fun v => Builtin.abs [v]) :=
      (Evaluator.node_cutsOff hroom x).bind fun v => .refl _
    exact hcut.resolve_left hdeep

/-- negative zero, a magnitude that rounds to zero, an exponent in a string, and a text that is no number -/
theorem eval_abs_rounded :
    canonicalize "-0" = some "-0.000000" ∧
      Evaluator.eval ⟨.builtin, 1⟩ (.call "ABS" [.leaf .number "-0"]) = .ok (.number "0.000000") ∧
      canonicalize "-4e-7" = some "-0.000000" ∧
      Evaluator.eval ⟨.builtin, 1⟩ (.call "ABS" [.leaf .string "-4e-7"]) = .ok (.number "0.000000") ∧
      canonicalize "--1" = none ∧
      Evaluator.eval ⟨.builtin, 1⟩ (.call "ABS" [.leaf .string "--1"]) = .error (.invalidNumber "ABS" "--1") ∧
      Evaluator.eval ⟨.builtin, 2⟩ (.call "ABS" [.call "ABS" [.leaf .string "-4e-7"]]) =
        Evaluator.eval ⟨.builtin, 2⟩ (.call "ABS" [.leaf .string "-4e-7"]) := by
  obtain ⟨hvalue, htwice, -⟩ := eval_abs 0
  have hzero : canonicalize "-0" = some "-0.000000" := by decide +kernel
  have hsmall : canonicalize "-4e-7" = some "-0.000000" := by decide +kernel
  have hnone : canonicalize "--1" = none := by decide +kernel
  have hminus : withoutMinus "-0.000000" = "0.000000" := by decide +kernel
  have habs := hvalue .number "-0" (by decide)
  have habs' := hvalue .string "-4e-7" (by decide)
  have habs'' := hvalue .string "--1" (by decide)
  rw [hzero] at habs
  rw [hsmall] at habs'
  rw [hnone] at habs''
  simp only [hminus] at habs habs'
  exact ⟨hzero, habs, hsmall, habs', hnone, habs'', htwice _ _⟩

end Formula
