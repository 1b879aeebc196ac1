/-
Texts that define one variable.

A text spells a variable if it is written `NAME:TYPE=VALUE`, where the name is not empty and has no `=`, and the type has
neither mark and names the kind (`Variable.Spelling`). The name may hold further colons and the value any marks, so such a
text can be cut in several places; only one of them leaves a name and a type of this form.

Each text that spells no variable has exactly one fault (`DefinitionError.Faults`). Reading a text of either sort is
computed in one direction only, `ofSpec_append` and `ofSpec_faults`; since every text is of one sort or the other
(`exists_spelling_or_faults`), the converse directions follow. `ofSpec_format`: reading accepts the texts that spell a
variable, yields that variable, and reports the fault of any other text.
-/
import Mathlib.Tactic
import Mathlib.Data.List.TakeWhile
import Formula.Proofs.Definitions

namespace Formula

/-! ## Types -/

/-- a letter is the upper or the lower case of its upper case -/
theorem eq_or_eq_toLower (c : Char) : c = c.toUpper ∨ c = c.toUpper.toLower := by
  by_cases hlower : 'a'.val ≤ c.val ∧ c.val ≤ 'z'.val
  · have hupper : c.toUpper.val = c.val + ('A'.val - 'a'.val) := by
      delta Char.toUpper
      rw [dif_pos hlower]
    have hrange : 'A'.val ≤ c.toUpper.val ∧ c.toUpper.val ≤ 'Z'.val := by
      have hshift : ('A'.val - 'a'.val).toNat = 2 ^ 32 - 32 := by decide
      have hleast : 97 ≤ c.val.toNat := hlower.1
      have hgreatest : c.val.toNat ≤ 122 := hlower.2
      have hcode : c.toUpper.val.toNat = c.val.toNat - 32 := by
        rw [hupper, UInt32.toNat_add, hshift]
        omega
      exact ⟨show 65 ≤ c.toUpper.val.toNat by omega, show c.toUpper.val.toNat ≤ 90 by omega⟩
    have hback : c.toUpper.toLower.val = c.toUpper.val + ('a'.val - 'A'.val) := by
      delta Char.toLower
      rw [dif_pos hrange]
    right
    rw [← Char.val_inj, hback, hupper, UInt32.add_assoc]
    exact (UInt32.add_zero _).symm
  · left
    delta Char.toUpper
    rw [dif_neg hlower]

namespace LeafKind

theorem eq_tag_of_ofTag? {tag : String} {kind : LeafKind} (h : ofTag? tag = some kind) : tag = kind.tag := by
  unfold ofTag? at h
  split_ifs at h with hnumber hstring hnull
  all_goals
    obtain rfl := Option.some.inj h
    assumption

/-- a text that is read as a kind has its letters, in either case -/
theorem namedBy_of_ofText? {type : String} {kind : LeafKind} (h : ofText? type = some kind) : kind.NamedBy type := by
  have htag : type.map Char.toUpper = kind.tag := eq_tag_of_ofTag? h
  rw [NamedBy, ← htag, String.toList_map, List.forall₂_map_right_iff]
  exact List.forall₂_same.2 fun c _ => eq_or_eq_toLower c

end LeafKind

/-! ## Marks -/

/-- a list with `a` in it has a last one -/
theorem exists_last_of_mem {α : Type} {a : α} {xs : List α} (h : a ∈ xs) :
    ∃ before after, xs = before ++ a :: after ∧ a ∉ after := by
  obtain ⟨after, before, hreverse, hafter⟩ := List.eq_append_cons_of_mem (List.mem_reverse.2 h)
  refine ⟨before.reverse, after.reverse, ?_, by simpa using hafter⟩
  rw [← List.reverse_reverse xs, hreverse]
  simp

namespace Variable

theorem splitFirst?_of_not_mem {mark : Char} {cs : List Char} (h : mark ∉ cs) : splitFirst? mark cs = none := by
  have hdrop : cs.dropWhile (· != mark) = [] := List.dropWhile_eq_nil_iff.2 (Lexer.bne_of_not_mem h)
  rw [splitFirst?, hdrop]

theorem splitLast?_of_not_mem {mark : Char} {cs : List Char} (h : mark ∉ cs) : splitLast? mark cs = none := by
  rw [splitLast?, splitFirst?_of_not_mem (by simpa using h)]
  rfl

/-- the first `=` of `NAME:TYPE=VALUE` ends the type -/
theorem splitFirst?_text {name type : String} (hname : '=' ∉ name.toList) (htype : '=' ∉ type.toList) (value : String) :
    splitFirst? '=' (name ++ ":" ++ type ++ "=" ++ value).toList =
      some (name.toList ++ ':' :: type.toList, value.toList) := by
  have htext : (name ++ ":" ++ type ++ "=" ++ value).toList =
      (name.toList ++ ':' :: type.toList) ++ '=' :: value.toList := by simp
  rw [htext, splitFirst?_append (by simp [hname, htype])]

/-! ## Spellings and faults -/

/-- `spec` is `NAME:TYPE=VALUE` for the variable, with its kind written as `type` -/
structure Spelling (v : Variable) (type spec : String) : Prop where
  text : spec = v.name ++ ":" ++ type ++ "=" ++ v.value
  name_ne : v.name ≠ ""
  name_mark : '=' ∉ v.name.toList
  type_marks : ':' ∉ type.toList ∧ '=' ∉ type.toList
  named : v.kind.NamedBy type

end Variable

/-- what an error says about a text that defines no variable -/
def DefinitionError.Faults (spec : String) : DefinitionError → Prop
  | .notSpec text => text = spec ∧ '=' ∉ spec.toList
  | .noType text => text = spec ∧ ∃ head value, spec = head ++ "=" ++ value ∧ '=' ∉ head.toList ∧ ':' ∉ head.toList
  | .emptyName text =>
    text = spec ∧ ∃ type value, spec = ":" ++ type ++ "=" ++ value ∧ ':' ∉ type.toList ∧ '=' ∉ type.toList
  | .unknownType none type => ∃ name value, spec = name ++ ":" ++ type ++ "=" ++ value ∧ name ≠ "" ∧ '=' ∉ name.toList ∧
      ':' ∉ type.toList ∧ '=' ∉ type.toList ∧ ∀ kind : LeafKind, ¬kind.NamedBy type
  | _ => False

/-- a fault is no matter of JSON -/
theorem DefinitionError.Faults.message {spec : String} {e : DefinitionError} (h : e.Faults spec) :
    ∃ detail, ∀ notJson, e.message notJson = "Invalid variable: " ++ detail := by
  have hquoted : ∀ text rest, "Invalid variable: '" ++ text ++ rest = "Invalid variable: " ++ ("'" ++ text ++ rest) := by
    intro text rest
    have hquote : "Invalid variable: '" = "Invalid variable: " ++ "'" := by decide
    rw [hquote, String.append_assoc, String.append_assoc, String.append_assoc]
  cases e with
  | notSpec text | noType text | emptyName text => exact ⟨_, fun _ => hquoted text _⟩
  | unknownType name? type =>
    cases name? with
    | none => exact ⟨_, fun _ => rfl⟩
    | some name => exact h.elim
  | _ => exact h.elim

namespace Variable

/-- **A faulty text is reported with its fault** -/
theorem ofSpec_faults {spec : String} {e : DefinitionError} (h : e.Faults spec) : ofSpec spec = .error e := by
  cases e with
  | notSpec text =>
    obtain ⟨rfl, heq⟩ := h
    rw [ofSpec, splitFirst?_of_not_mem heq]
  | noType text =>
    obtain ⟨rfl, head, value, rfl, heq, hcolon⟩ := h
    have htext : (head ++ "=" ++ value).toList = head.toList ++ '=' :: value.toList := by simp
    simp only [ofSpec, htext, splitFirst?_append heq, splitLast?_of_not_mem hcolon]
  | emptyName text =>
    obtain ⟨rfl, type, value, rfl, hcolon, heq⟩ := h
    have hempty : ":" ++ type ++ "=" ++ value = "" ++ ":" ++ type ++ "=" ++ value := by rw [String.empty_append]
    rw [hempty, ofSpec, splitFirst?_text (by simp) heq]
    simp only [splitLast?_append hcolon, String.toList_empty]
  | unknownType name? type =>
    cases name? with
    | none =>
      obtain ⟨name, value, rfl, hname, hmark, hcolon, heq, hkind⟩ := h
      have hne : name.toList ≠ [] := by simpa using hname
      have hread : readKind none type = .error (.unknownType none type) := by
        rw [readKind, Option.eq_none_iff_forall_ne_some.2 fun kind h => hkind kind (LeafKind.namedBy_of_ofText? h)]
      rw [ofSpec, splitFirst?_text hmark heq]
      simp only [splitLast?_append hcolon, String.ofList_toList, hread]
      rfl
    | some name => exact h.elim
  | _ => exact h.elim

theorem Spelling.ofSpec {v : Variable} {type spec : String} (h : v.Spelling type spec) : ofSpec spec = .ok v := by
  rw [h.text]
  exact ofSpec_append h.name_ne h.name_mark h.named

/-- **Every text spells a variable or has a fault.** It is cut at its first `=`, and what precedes that at its last `:`. -/
theorem exists_spelling_or_faults (spec : String) :
    (∃ v type, Spelling v type spec) ∨ ∃ e : DefinitionError, e.Faults spec := by
  by_cases heq : '=' ∈ spec.toList
  swap
  · exact .inr ⟨.notSpec spec, rfl, heq⟩
  obtain ⟨head, value, htext, hhead⟩ := List.eq_append_cons_of_mem heq
  by_cases hcolon : ':' ∈ head
  swap
  · refine .inr ⟨.noType spec, rfl, String.ofList head, String.ofList value, ?_, by simpa using hhead, by simpa using hcolon⟩
    rw [← String.toList_inj, htext]
    simp
  obtain ⟨name, type, rfl, htype⟩ := exists_last_of_mem hcolon
  rw [List.mem_append, List.mem_cons, not_or, not_or] at hhead
  obtain ⟨hname, -, htype'⟩ := hhead
  have hspec : spec = String.ofList name ++ ":" ++ String.ofList type ++ "=" ++ String.ofList value := by
    rw [← String.toList_inj, htext]
    simp
  rw [← String.toList_ofList (l := type)] at htype htype'
  rw [← String.toList_ofList (l := name)] at hname
  by_cases hempty : String.ofList name = ""
  · rw [hempty] at hspec
    exact .inr ⟨.emptyName spec, rfl, _, _, hspec, htype, htype'⟩
  by_cases hkind : ∃ kind : LeafKind, kind.NamedBy (String.ofList type)
  · obtain ⟨kind, hkind⟩ := hkind
    exact .inl ⟨⟨_, kind, _⟩, _, hspec, hempty, hname, ⟨htype, htype'⟩, hkind⟩
  · exact .inr ⟨.unknownType none _, _, _, hspec, hempty, hname, htype, htype', not_exists.1 hkind⟩

theorem exists_spelling_of_ofSpec {v : Variable} {spec : String} (h : ofSpec spec = .ok v) :
    ∃ type, v.Spelling type spec := by
  rcases exists_spelling_or_faults spec with ⟨w, type, hw⟩ | ⟨e, he⟩
  · obtain rfl : w = v := Except.ok.inj (hw.ofSpec.symm.trans h)
    exact ⟨type, hw⟩
  · cases (ofSpec_faults he).symm.trans h

theorem faults_of_ofSpec {e : DefinitionError} {spec : String} (h : ofSpec spec = .error e) : e.Faults spec := by
  rcases exists_spelling_or_faults spec with ⟨w, type, hw⟩ | ⟨e', he⟩
  · cases hw.ofSpec.symm.trans h
  · obtain rfl : e' = e := Except.error.inj ((ofSpec_faults he).symm.trans h)
    exact he

/-- a text is cut in one way only -/
theorem Spelling.unique {v w : Variable} {type type' spec : String} (hv : v.Spelling type spec)
    (hw : w.Spelling type' spec) : v = w ∧ type = type' := by
  obtain rfl : v = w := Except.ok.inj (hv.ofSpec.symm.trans hw.ofSpec)
  have htext := hv.text.symm.trans hw.text
  simp only [String.append_left_inj, String.append_right_inj] at htext
  exact ⟨rfl, htext⟩

end Variable

/-- **A text defines a variable if and only if it is `NAME:TYPE=VALUE`.** Reading yields `v` just when the text spells `v`:
with a name that is not empty and has no `=`, and a type without marks that is `NUMBER`, `STRING` or `NULL` in any mix of
cases. Name, type and value are then determined by the text. Every other text is refused as a bad variable, with the error
that says which part is missing or wrong. -/
theorem ofSpec_format (spec : String) :
    (∀ v, Variable.ofSpec spec = .ok v ↔ ∃ type, v.Spelling type spec) ∧
      (∀ (v w : Variable) type type', v.Spelling type spec → w.Spelling type' spec → v = w ∧ type = type') ∧
      ∀ e, Variable.ofSpec spec = .error e ↔
        e.Faults spec ∧ ∃ detail, ∀ notJson, e.message notJson = "Invalid variable: " ++ detail := by
  refine ⟨fun v => ⟨Variable.exists_spelling_of_ofSpec, ?_⟩, fun v w type type' hv hw => hv.unique hw, fun e => ⟨?_, ?_⟩⟩
  · rintro ⟨type, h⟩
    exact h.ofSpec
  · intro h
    have hfaults := Variable.faults_of_ofSpec h
    exact ⟨hfaults, hfaults.message⟩
  · rintro ⟨h, -⟩
    exact Variable.ofSpec_faults h

/-- marks on both sides of those that count, and the same text with the type before the colon -/
theorem ofSpec_format_marked :
    Variable.ofSpec "$a:b:nUlL=c=d:NUMBER=e" = .ok ⟨"$a:b", .null, "c=d:NUMBER=e"⟩ ∧
      (∀ (w : Variable) type, w.Spelling type "$a:b:nUlL=c=d:NUMBER=e" → type = "nUlL") ∧
      Variable.ofSpec "$a:nUlL:b=c=d:NUMBER=e" = .error (.unknownType none "b") := by
  have hspelling : Variable.Spelling ⟨"$a:b", .null, "c=d:NUMBER=e"⟩ "nUlL" "$a:b:nUlL=c=d:NUMBER=e" :=
    ⟨by decide, by decide, by decide, by decide, by decide⟩
  have hfaults : DefinitionError.Faults "$a:nUlL:b=c=d:NUMBER=e" (.unknownType none "b") :=
    ⟨"$a:nUlL", "c=d:NUMBER=e", by decide, by decide, by decide, by decide, by decide, fun kind => by cases kind <;> decide⟩
  obtain ⟨hok, hunique, -⟩ := ofSpec_format "$a:b:nUlL=c=d:NUMBER=e"
  obtain ⟨-, -, herror⟩ := ofSpec_format "$a:nUlL:b=c=d:NUMBER=e"
  refine ⟨(hok _).2 ⟨_, hspelling⟩, fun w type hw => (hunique _ _ _ _ hw hspelling).2, ?_⟩
  exact (herror _).2 ⟨hfaults, hfaults.message⟩

end Formula
