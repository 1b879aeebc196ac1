/-
Joining and trimming texts.

A `Concatenation` is a binary tree of calls of `CONCAT` over values of any kind. A value counts for the text that it holds,
and null for none (`CountsAs`); joining two values joins what they count for (`concat_of_countsAs`). So the bracketing does
not matter, and null is a unit: `eval_concatenation`.

`LTRIM` and `RTRIM` take off the longest run of characters of a set, at the start and at the end of a text. What is left in
the middle does not depend on the end that was trimmed first (`trimStart_trimEnd`): `eval_trim`.
-/
import Mathlib.Tactic
import Formula.Proofs.NestingLimit

namespace Formula

/-! ## Joining -/

/-- values that are joined two by two -/
inductive Concatenation where
  | leaf (kind : LeafKind) (text : String)
  | join (left right : Concatenation)

namespace Concatenation

/-- the calls that join the values -/
def node : Concatenation → Node
  | .leaf kind text => .leaf kind text
  | .join left right => .call "CONCAT" [left.node, right.node]

/-- the values from left to right -/
def leaves : Concatenation → List (LeafKind × String)
  | .leaf kind text => [(kind, text)]
  | .join left right => left.leaves ++ right.leaves

/-- the texts of the values that are not null -/
def texts (t : Concatenation) : List String := (t.leaves.filter (·.1 ≠ .null)).map (·.2)

theorem texts_join (left right : Concatenation) : (join left right).texts = left.texts ++ right.texts := by
  rw [texts, leaves, List.filter_append, List.map_append]
  rfl

theorem texts_eq_nil_iff (t : Concatenation) : t.texts = [] ↔ ∀ leaf ∈ t.leaves, leaf.1 = .null := by
  simp [texts]

theorem levels_node_join (left right : Concatenation) :
    (join left right).node.levels = 1 + max left.node.levels right.node.levels :=
  Node.levels_binary "CONCAT" left.node right.node

end Concatenation

/-- texts as one value, which is null if there are none -/
def joined (texts : List String) : Node := if texts = [] then .null else .string (String.join texts)

/-- what a value counts for where it is joined to others -/
inductive CountsAs : Node → List String → Prop where
  | null (text : String) : CountsAs (.leaf .null text) []
  | text {kind : LeafKind} (hkind : kind ≠ .null) {texts : List String} (htexts : texts ≠ []) :
      CountsAs (.leaf kind (String.join texts)) texts

theorem countsAs_joined (texts : List String) : CountsAs (joined texts) texts := by
  unfold joined
  split_ifs with hnil
  · rw [hnil]
    exact .null _
  · exact .text (by decide) hnil

/-- **Joining two values joins what they count for** -/
theorem concat_of_countsAs {first second : Node} {xs ys : List String} (hfirst : CountsAs first xs)
    (hsecond : CountsAs second ys) : Builtin.concat [first, second] = .ok (joined (xs ++ ys)) := by
  cases hfirst with
  | null text =>
    cases hsecond with
    | null text' => rfl
    | text hkind hys => simp [Builtin.concat, joined, hkind, hys]
  | text hkind hxs =>
    cases hsecond with
    | null text' => simp [Builtin.concat, joined, hkind, hxs]
    | text hkind' hys =>
      simp [Builtin.concat, joined, hkind, hkind', hxs, String.join_append]
      rfl

namespace Concatenation

theorem countsAs_leaf (kind : LeafKind) (text : String) : CountsAs (.leaf kind text) (leaf kind text).texts := by
  by_cases hkind : kind = .null
  · subst hkind
    exact .null text
  · have htexts : (leaf kind text).texts = [text] := by simp [texts, leaves, hkind]
    have hcounts : CountsAs (.leaf kind (String.join [text])) [text] := .text hkind (by simp)
    rw [htexts]
    simpa using hcounts

/-- a call of `CONCAT` is evaluated to what its two sides count for together -/
theorem node_join {limit depth : Nat} (hdepth : depth ≤ limit) {left right : Concatenation} {first second : Node}
    (hleft : (Evaluator.node ⟨.builtin, limit⟩ (depth + 1) left.node).outcome = .ok first)
    (hright : (Evaluator.node ⟨.builtin, limit⟩ (depth + 1) right.node).outcome = .ok second)
    (hfirst : CountsAs first left.texts) (hsecond : CountsAs second right.texts) :
    (Evaluator.node ⟨.builtin, limit⟩ depth (join left right).node).outcome = .ok (joined (join left right).texts) := by
  have hget : Registry.builtin.get? "CONCAT" = some Builtin.concat := rfl
  rw [node, Evaluator.node_registered (by decide +kernel) hget, if_neg (Nat.not_lt.2 hdepth), Evaluator.arguments_pair,
    hleft, hright, texts_join]
  exact concat_of_countsAs hfirst hsecond

/-- **Within the limit, a concatenation has a value that counts for its texts** -/
theorem exists_value (limit above : Nat) (t : Concatenation) (h : above + t.node.levels ≤ limit) :
    ∃ v, (Evaluator.node ⟨.builtin, limit⟩ (above + 1) t.node).outcome = .ok v ∧ CountsAs v t.texts := by
  induction t generalizing above with
  | leaf kind text => exact ⟨_, Evaluator.node_ofKind kind text, countsAs_leaf kind text⟩
  | join left right ihleft ihright =>
    rw [levels_node_join] at h
    obtain ⟨first, hleft, hfirst⟩ := ihleft (above + 1) (by omega)
    obtain ⟨second, hright, hsecond⟩ := ihright (above + 1) (by omega)
    exact ⟨_, node_join (by omega) hleft hright hfirst hsecond, countsAs_joined _⟩

end Concatenation

/-- **Joining is a monoid with null as its unit.** Values that are joined two by two, in any bracketing within the limit,
give the string of their texts from left to right, without those of nulls, and null if all of them are null. -/
theorem eval_concatenation {left right : Concatenation} {limit : Nat}
    (h : (Concatenation.join left right).node.levels ≤ limit) :
    ((∃ leaf ∈ (Concatenation.join left right).leaves, leaf.1 ≠ .null) →
        Evaluator.eval ⟨.builtin, limit⟩ (Concatenation.join left right).node =
          .ok (.string (String.join (Concatenation.join left right).texts))) ∧
      ((∀ leaf ∈ (Concatenation.join left right).leaves, leaf.1 = .null) →
        Evaluator.eval ⟨.builtin, limit⟩ (Concatenation.join left right).node = .ok .null) := by
  have hvalue : Evaluator.eval ⟨.builtin, limit⟩ (Concatenation.join left right).node =
      .ok (joined (Concatenation.join left right).texts) := by
    rw [Concatenation.levels_node_join] at h
    obtain ⟨first, hleft, hfirst⟩ := left.exists_value limit 1 (by omega)
    obtain ⟨second, hright, hsecond⟩ := right.exists_value limit 1 (by omega)
    exact Concatenation.node_join (by omega) hleft hright hfirst hsecond
  constructor
  · rintro ⟨leaf, hleaf, hkind⟩
    have hne : (Concatenation.join left right).texts ≠ [] := by
      rw [Ne, Concatenation.texts_eq_nil_iff]
      exact fun hnull => hkind (hnull leaf hleaf)
    rw [hvalue, joined, if_neg hne]
  · intro hnull
    rw [hvalue, joined, if_pos ((Concatenation.texts_eq_nil_iff _).2 hnull)]

/-- two nulls with texts of their own -/
def nullPair : Concatenation := .join (.leaf .null "x") (.leaf .null "")

/-- the two nulls in front of a number and an empty string with another null between them -/
def nullsAround : Concatenation :=
  .join nullPair (.join (.leaf .number "1.500000") (.join (.leaf .null "y") (.leaf .string "")))

theorem eval_concatenation_nulls :
    nullsAround.node.levels ≤ 3 ∧
      Evaluator.eval ⟨.builtin, 3⟩ nullsAround.node = .ok (.string (String.join ["1.500000", ""])) ∧
      nullPair.node.levels ≤ 1 ∧ Evaluator.eval ⟨.builtin, 1⟩ nullPair.node = .ok .null := by
  have hlevels : nullsAround.node.levels ≤ 3 := by decide +kernel
  have hlevels' : nullPair.node.levels ≤ 1 := by decide +kernel
  have hnumber : ∃ leaf ∈ nullsAround.leaves, leaf.1 ≠ .null := ⟨(.number, "1.500000"), by decide, by decide⟩
  have hnull : ∀ leaf ∈ nullPair.leaves, leaf.1 = .null := by decide
  exact ⟨hlevels, (eval_concatenation hlevels).1 hnumber, hlevels', (eval_concatenation hlevels').2 hnull⟩

/-! ## Trimming -/

namespace Builtin

/-- what is cut off at the start is a run of the set, and what is left does not go on with it -/
theorem exists_trimStart (set cs : List Char) :
    ∃ run, cs = run ++ trimStart set cs ∧ (∀ c ∈ run, c ∈ set) ∧ ∀ c ∈ (trimStart set cs).head?, c ∉ set := by
  refine ⟨cs.takeWhile set.contains, List.takeWhile_append_dropWhile.symm, ?_, ?_⟩
  · intro c hc
    exact List.contains_iff_mem.1 (List.mem_takeWhile_imp hc)
  · intro c hc hmem
    have hstop := List.head?_dropWhile_not set.contains cs
    rw [trimStart, Option.mem_def] at hc
    simp [hc, hmem] at hstop

/-- the mirror image, at the end -/
theorem exists_trimEnd (set cs : List Char) :
    ∃ run, cs = trimEnd set cs ++ run ∧ (∀ c ∈ run, c ∈ set) ∧ ∀ c ∈ (trimEnd set cs).getLast?, c ∉ set := by
  obtain ⟨run, heq, hrun, hstop⟩ := exists_trimStart set cs.reverse
  refine ⟨run.reverse, ?_, ?_, ?_⟩
  · rw [trimEnd, ← List.reverse_append, ← heq, List.reverse_reverse]
  · intro c hc
    exact hrun c (List.mem_reverse.1 hc)
  · intro c hc
    rw [trimEnd, List.getLast?_reverse] at hc
    exact hstop c hc

theorem trimStart_cons (set : List Char) (c : Char) (cs : List Char) :
    trimStart set (c :: cs) = if c ∈ set then trimStart set cs else c :: cs := by
  rw [trimStart, List.dropWhile_cons]
  simp only [List.contains_iff_mem]
  rfl

/-- a character in front is cut off at the end if nothing else is left -/
theorem trimEnd_cons (set : List Char) (c : Char) (cs : List Char) :
    trimEnd set (c :: cs) = if trimEnd set cs = [] ∧ c ∈ set then [] else c :: trimEnd set cs := by
  have hsplit : trimEnd set (c :: cs) =
      (if (trimStart set cs.reverse).isEmpty then trimStart set [c] else trimStart set cs.reverse ++ [c]).reverse := by
    rw [trimEnd, List.reverse_cons, trimStart, List.dropWhile_append]
    rfl
  have hnil : trimStart set [] = [] := rfl
  rw [hsplit, trimStart_cons, hnil, trimEnd]
  cases hrest : trimStart set cs.reverse with
  | nil =>
    by_cases hc : c ∈ set
    · simp [hc]
    · simp [hc]
  | cons d ds => simp

/-- **The two ends may be trimmed in either order** -/
theorem trimStart_trimEnd (set cs : List Char) : trimStart set (trimEnd set cs) = trimEnd set (trimStart set cs) := by
  induction cs with
  | nil => rfl
  | cons c cs ih =>
    have hnil : trimStart set [] = [] := rfl
    rw [trimEnd_cons, trimStart_cons]
    by_cases hc : c ∈ set
    · rw [if_pos hc, ← ih]
      split_ifs with hrest
      · rw [hrest.1]
      · rw [trimStart_cons, if_pos hc]
    · rw [if_neg hc, if_neg (fun h => hc h.2), trimStart_cons, if_neg hc, trimEnd_cons, if_neg (fun h => hc h.2)]

/-- a cut on two values gives null if one of them is null -/
theorem trimWith_leaves (function : String) (cut : List Char → List Char → List Char) (kind kind' : LeafKind)
    (text set : String) :
    trimWith function cut [.leaf kind text, .leaf kind' set] =
      .ok (if kind = .null ∨ kind' = .null then .null else .string (String.ofList (cut set.toList text.toList))) := by
  simp only [trimWith, Node.isNull_leaf, Bool.or_eq_true, decide_eq_true_eq, payload_leaf]
  split_ifs
  · rfl
  · rfl

variable {function : String} {cut : List Char → List Char → List Char}

/-- without a set, spaces are cut off -/
theorem trimWith_single (n : Node) {kind : LeafKind} (hkind : kind ≠ .null) :
    trimWith function cut [n] = trimWith function cut [n, .leaf kind " "] := by
  simp only [trimWith, Node.isNull_leaf, hkind, decide_false, Bool.or_false, payload_leaf]
  split_ifs
  · rfl
  · rfl

/-- one cut after another, with the same set -/
theorem trimWith_trimWith {other : String} {cut' : List Char → List Char → List Char} (kind kind' : LeafKind)
    (text set : String) :
    (trimWith function cut [.leaf kind text, .leaf kind' set] >>= fun v => trimWith other cut' [v, .leaf kind' set]) =
      .ok (if kind = .null ∨ kind' = .null then .null
        else .string (String.ofList (cut' set.toList (cut set.toList text.toList)))) := by
  rw [trimWith_leaves]
  by_cases hnull : kind = .null ∨ kind' = .null
  · rw [if_pos hnull, if_pos hnull]
    exact trimWith_leaves other cut' .null kind' LeafKind.null.tag set
  · have hkind' : ¬(LeafKind.string = .null ∨ kind' = .null) := by
      rintro (hstring | hset)
      · cases hstring
      · exact hnull (.inr hset)
    have houter := trimWith_leaves other cut' .string kind' (String.ofList (cut set.toList text.toList)) set
    rw [if_neg hkind', String.toList_ofList] at houter
    rw [if_neg hnull, if_neg hnull]
    exact houter

end Builtin

namespace Evaluator

variable {limit : Nat} {name : String} {cut : List Char → List Char → List Char}

/-- a call that trims two values -/
theorem eval_trimWith (hname : isLeafTag name = false) (hget : Registry.builtin.get? name = some (Builtin.trimWith name cut))
    {kind kind' : LeafKind} (hkind : kind ≠ .null) (hkind' : kind' ≠ .null) (text set : String) :
    eval ⟨.builtin, limit + 1⟩ (.call name [.leaf kind text, .leaf kind' set]) =
      .ok (.string (String.ofList (cut set.toList text.toList))) := by
  rw [eval, trace, node_registered hname hget, if_neg (by simp), arguments_pair, node_ofKind, node_ofKind]
  refine (Builtin.trimWith_leaves name cut kind kind' text set).trans ?_
  rw [if_neg (not_or.2 ⟨hkind, hkind'⟩)]

theorem eval_trimWith_single (hname : isLeafTag name = false)
    (hget : Registry.builtin.get? name = some (Builtin.trimWith name cut)) (s : Node) {kind : LeafKind}
    (hkind : kind ≠ .null) :
    eval ⟨.builtin, limit⟩ (.call name [s]) = eval ⟨.builtin, limit⟩ (.call name [s, .leaf kind " "]) := by
  rw [eval, trace, node_registered hname hget, eval, trace, node_registered hname hget, arguments_single, arguments_pair,
    node_ofKind]
  split_ifs
  · rfl
  · cases (node ⟨.builtin, limit⟩ (1 + 1) s).outcome with
    | error e => rfl
    | ok v => exact Builtin.trimWith_single v hkind

/-- two calls, one in the other, that trim with the same set -/
theorem eval_trimWith_nested {other : String} {cut' : List Char → List Char → List Char} (hname : isLeafTag name = false)
    (hget : Registry.builtin.get? name = some (Builtin.trimWith name cut)) (hother : isLeafTag other = false)
    (hget' : Registry.builtin.get? other = some (Builtin.trimWith other cut')) (kind kind' : LeafKind) (text set : String) :
    eval ⟨.builtin, limit⟩ (.call other [.call name [.leaf kind text, .leaf kind' set], .leaf kind' set]) =
      if limit < 2 then .error (.nestingTooDeep limit)
      else .ok (if kind = .null ∨ kind' = .null then .null
        else .string (String.ofList (cut' set.toList (cut set.toList text.toList)))) := by
  rw [eval, trace, node_registered hother hget', arguments_pair, node_registered hname hget, arguments_pair, node_ofKind,
    node_ofKind, node_ofKind]
  simp only [Nat.reduceAdd]
  by_cases hdeep : limit < 2
  · rw [if_pos hdeep, if_pos hdeep]
    split_ifs
    · rfl
    · rfl
  · have houter : ¬limit < 1 := by omega
    rw [if_neg houter, if_neg hdeep, if_neg hdeep, ← Builtin.trimWith_trimWith, bind_assoc]
    rfl

end Evaluator

/-- **Trimming takes off the longest run, and the two ends commute.** What `LTRIM` cuts off at the start of a text consists of
characters of the set, and what it leaves does not start with one of them; the same holds of `RTRIM` at the end. Without a
set both cut off spaces. Trimming one end after the other gives the same value in either order, nulls included. -/
theorem eval_trim (limit : Nat) :
    (∀ kind kind' text set, kind ≠ .null → kind' ≠ .null →
      (∃ run rest, text = run ++ rest ∧ (∀ c ∈ run.toList, c ∈ set.toList) ∧ (∀ c ∈ rest.toList.head?, c ∉ set.toList) ∧
        Evaluator.eval ⟨.builtin, limit + 1⟩ (.call "LTRIM" [.leaf kind text, .leaf kind' set]) = .ok (.string rest)) ∧
      ∃ rest run, text = rest ++ run ∧ (∀ c ∈ run.toList, c ∈ set.toList) ∧
        (∀ c ∈ rest.toList.getLast?, c ∉ set.toList) ∧
        Evaluator.eval ⟨.builtin, limit + 1⟩ (.call "RTRIM" [.leaf kind text, .leaf kind' set]) = .ok (.string rest)) ∧
      (∀ name ∈ ["LTRIM", "RTRIM"], ∀ s kind, kind ≠ .null →
        Evaluator.eval ⟨.builtin, limit⟩ (.call name [s]) =
          Evaluator.eval ⟨.builtin, limit⟩ (.call name [s, .leaf kind " "])) ∧
      ∀ kind kind' text set,
        Evaluator.eval ⟨.builtin, limit⟩
            (.call "LTRIM" [.call "RTRIM" [.leaf kind text, .leaf kind' set], .leaf kind' set]) =
          Evaluator.eval ⟨.builtin, limit⟩
            (.call "RTRIM" [.call "LTRIM" [.leaf kind text, .leaf kind' set], .leaf kind' set]) ∧
        (2 ≤ limit → ∃ v, Evaluator.eval ⟨.builtin, limit⟩
          (.call "LTRIM" [.call "RTRIM" [.leaf kind text, .leaf kind' set], .leaf kind' set]) = .ok v) := by
  have hltrim : isLeafTag "LTRIM" = false := by decide +kernel
  have hrtrim : isLeafTag "RTRIM" = false := by decide +kernel
  have hget : Registry.builtin.get? "LTRIM" = some (Builtin.trimWith "LTRIM" Builtin.trimStart) := rfl
  have hget' : Registry.builtin.get? "RTRIM" = some (Builtin.trimWith "RTRIM" Builtin.trimEnd) := rfl
  refine ⟨?_, ?_, ?_⟩
  · intro kind kind' text set hkind hkind'
    obtain ⟨run, heq, hrun, hstop⟩ := Builtin.exists_trimStart set.toList text.toList
    obtain ⟨run', heq', hrun', hstop'⟩ := Builtin.exists_trimEnd set.toList text.toList
    refine ⟨⟨String.ofList run, _, ?_, ?_, ?_, Evaluator.eval_trimWith hltrim hget hkind hkind' text set⟩,
      ⟨_, String.ofList run', ?_, ?_, ?_, Evaluator.eval_trimWith hrtrim hget' hkind hkind' text set⟩⟩
    · rw [← String.ofList_append, ← heq, String.ofList_toList]
    · rwa [String.toList_ofList]
    · rwa [String.toList_ofList]
    · rw [← String.ofList_append, ← heq', String.ofList_toList]
    · rwa [String.toList_ofList]
    · rwa [String.toList_ofList]
  · intro name hname s kind hkind
    rcases List.mem_pair.1 hname with rfl | rfl
    · exact Evaluator.eval_trimWith_single hltrim hget s hkind
    · exact Evaluator.eval_trimWith_single hrtrim hget' s hkind
  · intro kind kind' text set
    rw [Evaluator.eval_trimWith_nested hrtrim hget' hltrim hget, Evaluator.eval_trimWith_nested hltrim hget hrtrim hget',
      Builtin.trimStart_trimEnd]
    refine ⟨rfl, ?_⟩
    intro hroom
    exact ⟨_, if_neg (Nat.not_lt.2 hroom)⟩

/-- a text and a set with an accent, a set given as a number, and a null for a set -/
theorem eval_trim_accents :
    LeafKind.string ≠ .null ∧ LeafKind.number ≠ .null ∧
      (∃ run rest, "1é1xé" = run ++ rest ∧ (∀ c ∈ run.toList, c ∈ "é1".toList) ∧ (∀ c ∈ rest.toList.head?, c ∉ "é1".toList) ∧
        Evaluator.eval ⟨.builtin, 3⟩ (.call "LTRIM" [.leaf .string "1é1xé", .leaf .number "é1"]) = .ok (.string rest)) ∧
      Evaluator.eval ⟨.builtin, 2⟩ (.call "RTRIM" [.string "x  "]) =
        Evaluator.eval ⟨.builtin, 2⟩ (.call "RTRIM" [.string "x  ", .leaf .string " "]) ∧
      ∃ v, Evaluator.eval ⟨.builtin, 2⟩
        (.call "LTRIM" [.call "RTRIM" [.leaf .string "x", .leaf .null ""], .leaf .null ""]) = .ok v := by
  obtain ⟨hcut, hspace, hboth⟩ := eval_trim 2
  have hstring : LeafKind.string ≠ .null := by decide
  have hnumber : LeafKind.number ≠ .null := by decide
  refine ⟨hstring, hnumber, (hcut _ _ _ _ hstring hnumber).1, ?_, (hboth _ _ _ _).2 le_rfl⟩
  exact hspace "RTRIM" (by decide) (.string "x  ") .string hstring

-- a text that is nothing but the set
example : Evaluator.eval ⟨.builtin, 2⟩ (.call "LTRIM" [.call "RTRIM" [.string "abba", .string "ab"], .string "ab"]) =
    .ok (.string "") := by decide +kernel

end Formula
