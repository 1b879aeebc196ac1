/-
Lists joined by a separator, and lists cut at a mark.
-/
import Mathlib.Tactic

namespace Formula

variable {α β : Type}

/-! ## Joining -/

/-- every part after the first has the separator before it -/
theorem intercalate_cons (separator part : List α) (parts : List (List α)) :
    separator.intercalate (part :: parts) = part ++ parts.flatMap (separator ++ ·) := by
  induction parts generalizing part with
  | nil => simp [List.intercalate_singleton]
  | cons next parts ih => rw [List.intercalate_cons_cons, ih next, List.flatMap_cons, List.append_assoc, List.append_assoc]

theorem mem_intercalate {separator : List α} {parts : List (List α)} {x : α} (h : x ∈ separator.intercalate parts) :
    x ∈ separator ∨ ∃ part ∈ parts, x ∈ part := by
  cases parts with
  | nil => simp at h
  | cons first parts =>
    rw [intercalate_cons, List.mem_append, List.mem_flatMap] at h
    rcases h with h | ⟨part, hpart, hx⟩
    · exact .inr ⟨first, List.mem_cons_self, h⟩
    · rcases List.mem_append.1 hx with hx | hx
      · exact .inl hx
      · exact .inr ⟨part, List.mem_cons_of_mem _ hpart, hx⟩

theorem length_le_intercalate {separator part : List α} {parts : List (List α)} (h : part ∈ parts) :
    part.length ≤ (separator.intercalate parts).length := by
  cases parts with
  | nil => simp at h
  | cons first parts =>
    rw [intercalate_cons, List.length_append]
    rcases List.mem_cons.1 h with rfl | h
    · omega
    · have hsublist : (separator ++ part).Sublist (parts.flatMap (separator ++ ·)) :=
        List.sublist_flatten_of_mem (List.mem_map_of_mem h)
      have hlength := hsublist.length_le
      rw [List.length_append] at hlength
      omega

theorem map_intercalate (f : α → β) (separator : List α) (parts : List (List α)) :
    (separator.intercalate parts).map f = (separator.map f).intercalate (parts.map (List.map f)) := by
  cases parts with
  | nil => rfl
  | cons part parts =>
    simp only [intercalate_cons, List.map_cons, List.map_append, List.map_flatMap, List.flatMap_map]

theorem flatten_intercalate (separator : List (List α)) (parts : List (List (List α))) :
    (separator.intercalate parts).flatten = separator.flatten.intercalate (parts.map List.flatten) := by
  cases parts with
  | nil => rfl
  | cons part parts =>
    rw [intercalate_cons, List.map_cons, intercalate_cons, List.flatten_append, List.flatMap_map]
    simp [List.flatMap_def, List.flatten_flatten, Function.comp_def]

/-! ## Cutting -/

/-- what stands before the first `a` and behind it is determined -/
theorem append_cons_inj {a : α} {xs ys us vs : List α} (hx : a ∉ xs) (hy : a ∉ ys)
    (h : xs ++ a :: us = ys ++ a :: vs) : xs = ys ∧ us = vs := by
  induction xs generalizing ys with
  | nil =>
    cases ys with
    | nil => exact ⟨rfl, (List.cons.inj h).2⟩
    | cons y ys => exact absurd (List.mem_cons.2 (.inl (List.cons.inj h).1)) hy
  | cons x xs ih =>
    cases ys with
    | nil => exact absurd (List.mem_cons.2 (.inl (List.cons.inj h).1.symm)) hx
    | cons y ys =>
      obtain ⟨rfl, htail⟩ := List.cons.inj h
      obtain ⟨-, hxs⟩ := List.ne_and_not_mem_of_not_mem_cons hx
      obtain ⟨-, hys⟩ := List.ne_and_not_mem_of_not_mem_cons hy
      obtain ⟨rfl, rest⟩ := ih hxs hys htail
      exact ⟨rfl, rest⟩

end Formula
