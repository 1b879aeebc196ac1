/-
Every report is one line.

A report quotes a formula or a value, which leaves no line end in it, or it names operators, functions and tags. Those are
words of the language, also where the text of a formula has line ends in it: the tokens that name a node are words of the
tables, and so the tags of all entries that the parser works on are (`Scope.reports_trace`), and the evaluator calls only
what is registered (`Evaluator.reports_node`).

`Command.reports_trace`: whatever a command is run on, it reports lines, also on the way to an error.
-/
import Mathlib.Tactic
import Formula.CommandLine
import Formula.Proofs.Derivation
import Formula.Proofs.Functions
import Formula.Proofs.TokenClasses

namespace Formula

/-! ## Lines -/

/-- a text without a line end -/
def IsLine (text : String) : Prop := '\n' ∉ text.toList

instance (text : String) : Decidable (IsLine text) := inferInstanceAs (Decidable (_ ∉ _))

theorem isLine_append {a b : String} : IsLine (a ++ b) ↔ IsLine a ∧ IsLine b := by simp [IsLine]

theorem isLine_toString (n : Nat) : IsLine (toString n) := by
  intro h
  have hdigit : ('\n').isDigit = true := Nat.isDigit_of_mem_toDigits (by decide) (by decide) (Nat.toList_repr ▸ h)
  cases hdigit

theorem isLine_tag (kind : LeafKind) : IsLine kind.tag := by cases kind <;> decide

theorem Token.Classed.isLine {t : Token} (h : t.Classed) (hkind : t.kind = .operator ∨ t.kind = .keyword) :
    IsLine t.text := by
  have hall : ∀ word ∈ symbols ++ reservedWords, IsLine word := by decide +kernel
  apply hall
  rcases hkind with hkind | hkind
  · exact List.mem_append_left _ (h.operator hkind)
  · exact List.mem_append_right _ (h.keyword hkind).1

theorem isLine_functionName {name : String} (h : isFunctionName name = true) : IsLine name := by
  have hall : ∀ name ∈ functionNames, IsLine name := by decide +kernel
  exact hall name (List.contains_iff_mem.1 h)

theorem isLine_registered {name : String} (h : (Registry.builtin.get? name).isSome = true) : IsLine name := by
  have hall : ∀ name ∈ Registry.builtin.functions.keys, IsLine name := by decide +kernel
  apply hall
  rw [Std.TreeMap.mem_keys]
  simpa [Registry.get?] using h

namespace Text

theorem not_mem_toDigits {c : Char} (hall : ∀ d < 16, c ≠ Nat.digitChar d) (n : Nat) : c ∉ Nat.toDigits 16 n := by
  induction n using Nat.strongRecOn with
  | _ n ih =>
    rw [Nat.toDigits_eq_if (by decide)]
    split_ifs with hn
    · simp [hall n hn]
    · have hlast := hall (n % 16) (Nat.mod_lt n (by decide))
      simpa [hlast] using ih (n / 16) (by omega)

theorem not_mem_quoteChar (c : Char) : '\n' ∉ quoteChar c := by
  unfold quoteChar
  split
  case h_7 =>
    rename_i hline _ _
    split_ifs
    · simp [codeEscape, not_mem_toDigits (show ∀ d < 16, '\n' ≠ Nat.digitChar d by decide)]
    · simpa using fun h : '\n' = c => hline h.symm
  all_goals decide

/-- quoting leaves no line end -/
theorem isLine_quoted (text : String) : IsLine (quoted text) := by
  simp [IsLine, quoted, not_mem_quoteChar]

end Text

/-! ## Computations that report lines -/

/-- all events reported are lines, and a result has the property `Q` -/
structure Traced.Reports {ε α : Type} (Q : α → Prop) (t : Traced ε α) : Prop where
  events : ∀ e ∈ t.events, IsLine e.message
  result : ∀ a, t.outcome = .ok a → Q a

namespace Traced.Reports

variable {ε δ α β : Type} {Q : α → Prop} {R : β → Prop}

theorem pure {a : α} (h : Q a) : Reports Q (Pure.pure a : Traced ε α) := by
  refine ⟨by simp, ?_⟩
  intro b hb
  obtain rfl := Except.ok.inj hb
  exact h

theorem fail (e : ε) : Reports Q (Traced.fail e) := ⟨by simp [Traced.fail], by simp⟩

theorem ofExcept {r : Except ε α} (h : ∀ a, r = .ok a → Q a) : Reports Q (Traced.ofExcept r) :=
  ⟨by simp [Traced.ofExcept], h⟩

theorem report {e : Event} (h : IsLine e.message) : Reports (fun _ => True) (Traced.report e : Traced ε Unit) :=
  ⟨by simpa [Traced.report] using h, by simp⟩

theorem bind {t : Traced ε α} {f : α → Traced ε β} (ht : Reports Q t) (hf : ∀ a, Q a → Reports R (f a)) :
    Reports R (t >>= f) := by
  obtain ⟨events, outcome⟩ := t
  cases outcome with
  | error e => exact ⟨ht.events, by simp [bind_eq_ok_iff]⟩
  | ok a =>
    have ha := hf a (ht.result a rfl)
    exact ⟨List.forall_mem_append.2 ⟨ht.events, ha.events⟩, ha.result⟩

theorem mapError {t : Traced ε α} (h : Reports Q t) (f : ε → δ) : Reports Q (t.mapError f) := by
  refine ⟨h.events, ?_⟩
  intro a ha
  exact h.result a (mapError_eq_ok_iff.1 ha)

end Traced.Reports

open Traced (Reports)

/-! ## Folding -/

/-- entries whose tags are lines -/
def Lines (entries : List Entry) : Prop := ∀ e ∈ entries, IsLine e.node.tag

theorem reports_combine (limit : Nat) {op : String} {left right : Entry} (hop : IsLine op) (hleft : IsLine left.node.tag)
    (hright : IsLine right.node.tag) : Reports (fun e => IsLine e.node.tag) (combine limit op left right) := by
  unfold combine
  dsimp only
  split_ifs
  · exact .fail _
  · have hmessage : IsLine (Event.folded op left.node.tag right.node.tag).message := by
      simp only [Event.message, isLine_append]
      exact ⟨⟨⟨⟨⟨by decide, hop⟩, by decide⟩, hleft⟩, by decide⟩, hright⟩
    exact .bind (.report hmessage) fun _ _ => .pure hop

theorem reports_foldFrom (limit : Nat) (operators : List String) {left : Entry} {entries : List Entry}
    (hleft : IsLine left.node.tag) (h : Lines entries) : Reports Lines (foldFrom limit operators left entries) := by
  fun_induction foldFrom limit operators left entries with
  | case1 left => exact .pure (by simpa [Lines] using hleft)
  | case2 left e hop => exact .fail _
  | case3 left e hop right rest ih =>
    obtain ⟨he, hright, hrest⟩ : IsLine e.node.tag ∧ IsLine right.node.tag ∧ Lines rest := by simpa [Lines] using h
    exact .bind (reports_combine limit he hleft hright) fun whole hwhole => ih whole hwhole hrest
  | case4 left e rest hop ih =>
    obtain ⟨he, hrest⟩ := List.forall_mem_cons.1 h
    exact .bind (ih he hrest) fun folded hfolded => .pure (List.forall_mem_cons.2 ⟨hleft, hfolded⟩)

theorem reports_foldLevel (limit : Nat) (operators : List String) {entries : List Entry} (h : Lines entries) :
    Reports Lines (foldLevel limit operators entries) := by
  cases entries with
  | nil => exact .pure h
  | cons e rest =>
    obtain ⟨he, hrest⟩ := List.forall_mem_cons.1 h
    rw [foldLevel]
    split_ifs
    · exact .fail _
    · exact reports_foldFrom limit operators he hrest

theorem reports_foldLevels (limit : Nat) (levels : List (List String)) {entries : List Entry} (h : Lines entries) :
    Reports Lines (foldLevels limit levels entries) := by
  induction levels generalizing entries with
  | nil => exact .pure h
  | cons operators levels ih => exact .bind (reports_foldLevel limit operators h) fun folded hfolded => ih hfolded

/-! ## Outlines -/

/-- an item of tokens as the tables have them, in which function names are what is called -/
inductive Item.Named : Item → Prop where
  | token {t : Token} (h : t.Classed) : Named (.token t)
  | group {g : Group} (h : ∀ item ∈ g.body, item.Named) : Named (.group g)
  | call {name : Token} {g : Group} (hname : name.isFunction = true) (h : ∀ item ∈ g.body, item.Named) :
      Named (.call name g)

/-- such an outline, also behind each break -/
structure Outline.Named (o : Outline) : Prop where
  items : ∀ item ∈ o.items, item.Named
  breaks : ∀ b ∈ o.breaks, ∀ item ∈ b.items, item.Named

namespace Outline

theorem Named.openGroup {o : Outline} (h : o.Named) (opener : Token) : (openGroup opener o).Named := by
  unfold Outline.openGroup
  split
  · exact ⟨List.forall_mem_singleton.2 (.group h.items), by simp⟩
  · rename_i b breaks hbreaks
    have hb := h.breaks
    rw [hbreaks] at hb
    obtain ⟨hfirst, hmore⟩ := List.forall_mem_cons.1 hb
    exact ⟨List.forall_mem_cons.2 ⟨.group h.items, hfirst⟩, hmore⟩

theorem Named.pushToken {o : Outline} (h : o.Named) {t : Token} (ht : t.Classed) : (pushToken t o).Named := by
  unfold Outline.pushToken
  split
  · rename_i g items hname hitems
    have hall := h.items
    rw [hitems] at hall
    obtain ⟨hgroup, hrest⟩ := List.forall_mem_cons.1 hall
    cases hgroup with
    | group hbody => exact ⟨List.forall_mem_cons.2 ⟨.call hname hbody, hrest⟩, h.breaks⟩
  · exact ⟨List.forall_mem_cons.2 ⟨.token ht, h.items⟩, h.breaks⟩

theorem named_of {ts : List Token} (h : ∀ t ∈ ts, t.Classed) : (of ts).Named := by
  induction ts with
  | nil => exact ⟨by simp [of], by simp [of]⟩
  | cons t rest ih =>
    obtain ⟨ht, hrest⟩ := List.forall_mem_cons.1 h
    rw [of]
    split_ifs
    · exact (ih hrest).openGroup t
    · exact ⟨by simp, List.forall_mem_cons.2 ⟨(ih hrest).items, (ih hrest).breaks⟩⟩
    · exact (ih hrest).pushToken ht

end Outline

/-! ## Parsing -/

namespace Scope

theorem isLine_tokenNode {s : Scope} {t : Token} {n : Node} (ht : t.Classed) (h : s.tokenNode t = .ok n) :
    IsLine n.tag := by
  rcases tokenNode_ok h with ⟨kind, text, rfl, -⟩ | ⟨hkind, rfl⟩
  · exact isLine_tag kind
  · exact ht.isLine hkind

theorem reports_callEntry (s : Scope) {name : Token} (hname : name.isFunction = true) (args : List Entry) :
    Reports (fun e => IsLine e.node.tag) (s.callEntry name.text args) := by
  have hline : IsLine name.text := isLine_functionName (Bool.and_eq_true_iff.1 hname).2
  have hmessage : IsLine (Event.built name.text args.length).message := by
    simp only [Event.message, isLine_append]
    exact ⟨⟨⟨⟨by decide, hline⟩, by decide⟩, isLine_toString _⟩, by decide⟩
  refine .bind (.report hmessage) fun _ _ => ?_
  dsimp only
  split_ifs
  · exact .fail _
  · exact .pure hline

mutual

theorem reports_entries (s : Scope) (depth : Nat) :
    ∀ items : List Item, (∀ item ∈ items, item.Named) → Reports Lines (s.entries depth items)
  | [], _ => by
    rw [entries]
    exact .pure (by simp [Lines])
  | .token t :: rest, h => by
    have ⟨.token ht, hrest⟩ := List.forall_mem_cons.1 h
    have ih := reports_entries s depth rest hrest
    rw [entries]
    split_ifs
    · exact ih
    · refine .bind (.ofExcept fun n hn => isLine_tokenNode ht hn) fun n hn => ?_
      exact .bind ih fun more hmore => .pure (List.forall_mem_cons.2 ⟨hn, hmore⟩)
  | .group g :: rest, h => by
    have ⟨.group hbody, hrest⟩ := List.forall_mem_cons.1 h
    rw [entries]
    refine .bind (reports_groupEntries s depth g hbody) fun inner hinner => ?_
    exact .bind (reports_entries s depth rest hrest) fun more hmore => .pure (List.forall_mem_append.2 ⟨hinner, hmore⟩)
  | .call name g :: rest, h => by
    have ⟨.call hname hbody, hrest⟩ := List.forall_mem_cons.1 h
    rw [entries]
    refine .bind (reports_groupEntries s depth g hbody) fun args _ => ?_
    refine .bind (s.reports_callEntry hname args) fun entry hentry => ?_
    exact .bind (reports_entries s depth rest hrest) fun more hmore => .pure (List.forall_mem_cons.2 ⟨hentry, hmore⟩)

theorem reports_groupEntries (s : Scope) (depth : Nat) :
    ∀ g : Group, (∀ item ∈ g.body, item.Named) → Reports Lines (s.groupEntries depth g)
  | ⟨opener, body, closer?⟩, h => by
    rw [groupEntries]
    split_ifs
    · exact .fail _
    · refine .bind (reports_entries s (depth + 1) body h) fun inner hinner => ?_
      refine .bind (reports_foldLevels s.maxDepth precedence hinner) fun folded hfolded => ?_
      cases closer? with
      | none => exact .fail _
      | some closer => exact .pure hfolded

end

/-- **Parsing reports lines** -/
theorem reports_trace (s : Scope) {tokens : List Token} (h : ∀ t ∈ tokens, t.Classed) :
    Reports (fun _ => True) (s.trace tokens) := by
  have hmessage : IsLine (Event.parsing tokens.length s.vars.length).message := by
    simp only [Event.message, isLine_append]
    exact ⟨⟨⟨⟨by decide, isLine_toString _⟩, by decide⟩, isLine_toString _⟩, by decide⟩
  refine .bind (.report hmessage) fun _ _ => ?_
  refine .bind (s.reports_entries 0 _ (Outline.named_of h).items) fun entries hentries => ?_
  refine .bind (reports_foldLevels s.maxDepth precedence hentries) fun folded _ => ?_
  split
  · exact .fail _
  · exact .ofExcept fun _ _ => trivial

theorem reports_traceTree (s : Scope) (formula : String) : Reports (fun _ => True) (s.traceTree formula) := by
  have htokens : Reports (fun tokens => ∀ t ∈ tokens, t.Classed) (Traced.ofExcept (tokenize formula)) :=
    .ofExcept fun tokens htokens => classed_of_tokenize htokens
  exact .bind (htokens.mapError _) fun tokens hclassed => (s.reports_trace hclassed).mapError _

end Scope

/-! ## Evaluation -/

namespace Evaluator

variable {e : Evaluator}

mutual

/-- **Evaluation reports lines**, where the names of all functions are lines -/
theorem reports_node (hnames : ∀ name, (e.registry.get? name).isSome = true → IsLine name) (depth : Nat) :
    ∀ n : Node, Reports (fun _ => True) (e.node depth n)
  | ⟨tag, args⟩ => by
    rw [node]
    split_ifs
    · exact .pure trivial
    · exact .fail _
    · split
      · exact .fail _
      · rename_i f hf
        refine .bind (reports_arguments hnames (depth + 1) tag args) fun values _ => ?_
        have hmessage : IsLine (Event.calling tag values.length).message := by
          simp only [Event.message, isLine_append]
          exact ⟨⟨⟨⟨by decide, hnames tag (by rw [hf]; rfl)⟩, by decide⟩, isLine_toString _⟩, by decide⟩
        exact .bind (.report hmessage) fun _ _ => .ofExcept fun _ _ => trivial

theorem reports_arguments (hnames : ∀ name, (e.registry.get? name).isSome = true → IsLine name) (depth : Nat)
    (tag : String) : ∀ args : List Arg, Reports (fun _ => True) (e.arguments depth tag args)
  | [] => by
    rw [arguments]
    exact .pure trivial
  | .value text :: rest => by
    rw [arguments]
    exact .fail _
  | .node n :: rest => by
    rw [arguments]
    refine .bind (reports_node hnames depth n) fun value _ => ?_
    exact .bind (reports_arguments hnames depth tag rest) fun more _ => .pure trivial

end

end Evaluator

theorem Scope.reports_traceValue (s : Scope) (formula : String) : Reports (fun _ => True) (s.traceValue formula) := by
  have hstart : IsLine (Event.evaluating formula).message := isLine_append.2 ⟨by decide, Text.isLine_quoted _⟩
  have htext (t : Node) : Reports (fun _ => True) (Evaluator.traceText ⟨.builtin, s.maxDepth⟩ t) :=
    .bind (Evaluator.reports_node (fun _ => isLine_registered) 1 t) fun _ _ => .ofExcept fun _ _ => trivial
  refine .bind (.report hstart) fun _ _ => ?_
  refine .bind (s.reports_traceTree formula) fun t _ => ?_
  refine .bind ((htext t).mapError _) fun value _ => ?_
  have hend : IsLine (Event.result value).message := isLine_append.2 ⟨by decide, Text.isLine_quoted _⟩
  exact .bind (.report hend) fun _ _ => .pure trivial

/-! ## Commands -/

/-- **A command reports lines**, whatever it is run on -/
theorem CommandLine.Command.reports_trace (command : Command) (input : StandardInput) :
    Reports (fun _ => True) (command.trace input) := by
  cases command with
  | eval args =>
    refine .bind (.ofExcept fun _ _ => trivial) fun scope _ => ?_
    exact (scope.1.reports_traceValue scope.2).mapError _
  | parse args pretty =>
    refine .bind (.ofExcept fun _ _ => trivial) fun scope _ => ?_
    exact .bind ((scope.1.reports_traceTree scope.2).mapError _) fun t _ => .pure trivial
  | tokens formula? => exact .ofExcept fun _ _ => trivial
  | functions => exact .pure trivial
  | docs => exact .pure trivial
  | doc topic =>
    rw [Command.trace]
    split
    · exact .pure trivial
    · exact .fail _

end Formula
