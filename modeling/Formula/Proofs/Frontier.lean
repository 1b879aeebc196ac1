/-
No token is lost, duplicated or reordered.

The frontier of a tree lists its leaves, placeholders, operators and function names as they stand in the written formula:
an operator between its operands, a name before its arguments. Operators and names are listed as the placeholders that
their tokens stand for, so that a frontier is a list of trees without levels.

Folding keeps the concatenated frontiers of a list of trees (`Folds.frontiers`), and so does everything else that the
parser does. `frontier_tree`: the frontier of a parsed formula is its token list without parentheses and commas.
-/
import Mathlib.Tactic
import Formula.Interpreter
import Formula.Proofs.Precedence

namespace Formula

/-! ## Frontiers -/

/-- the frontier of a node from those of its arguments: an operator stands between them, a name before them -/
def joinFrontiers (tag : String) (parts : List (List Node)) : List Node :=
  if tag ∈ binaryOperators then [Node.placeholder tag].intercalate parts else .placeholder tag :: parts.flatten

/-- the leaves, placeholders, operators and names of a tree from left to right -/
def Node.frontier : Node → List Node := Node.bottomUp (fun tag text => [⟨tag, [.value text]⟩]) joinFrontiers

/-- the frontiers of some trees, one after the other -/
def frontiers (nodes : List Node) : List Node := nodes.flatMap Node.frontier

namespace Node

theorem frontier_value (tag text : String) : frontier ⟨tag, [.value text]⟩ = [⟨tag, [.value text]⟩] := bottomUp_value _ _

theorem frontier_binary {op : String} (h : op ∈ binaryOperators) (left right : Node) :
    (binary op left right).frontier = left.frontier ++ placeholder op :: right.frontier := by
  rw [frontier, bottomUp_binary]
  simp [joinFrontiers, h, List.intercalate]

theorem frontier_call {name : String} (h : name ∉ binaryOperators) (args : List Node) :
    (call name args).frontier = placeholder name :: frontiers args := by
  rw [frontier, bottomUp_call, frontiers, List.flatMap_def]
  simp [joinFrontiers, h, frontier]

/-- a placeholder carries its own tag -/
def SelfNamed (n : Node) : Prop := n.isPlaceholder = true → n = placeholder n.tag

end Node

/-! ## Folding -/

theorem FoldsFrom.frontiers {operators : List String} {left : Node} {nodes out : List Node}
    (h : FoldsFrom operators left nodes out) (hops : ∀ op ∈ operators, op ∈ binaryOperators)
    (hnodes : ∀ n ∈ nodes, n.SelfNamed) : frontiers out = frontiers (left :: nodes) := by
  induction h with
  | done left => rfl
  | @take left op right rest out hop _ ih =>
    obtain ⟨hself, hnodes⟩ := List.forall_mem_cons.1 hnodes
    obtain ⟨-, hrest⟩ := List.forall_mem_cons.1 hnodes
    have hplaceholder : op = .placeholder op.tag := by
      simp only [Node.isOperator, Bool.and_eq_true] at hop
      exact hself hop.1
    have hfrontier : op.frontier = [.placeholder op.tag] := by
      rw [hplaceholder]
      exact Node.frontier_value _ _
    have htag := hops _ (Node.tag_mem_of_isOperator hop)
    rw [ih hrest]
    simp [Formula.frontiers, Node.frontier_binary htag, hfrontier]
  | keep _ _ ih =>
    obtain ⟨-, hrest⟩ := List.forall_mem_cons.1 hnodes
    simpa [Formula.frontiers] using ih hrest

theorem Node.selfNamed_binary (op : String) (left right : Node) : (binary op left right).SelfNamed := by
  intro h
  simp [isPlaceholder, value?, binary] at h

theorem FoldsLevel.frontiers {operators : List String} {nodes out : List Node} (h : FoldsLevel operators nodes out)
    (hops : ∀ op ∈ operators, op ∈ binaryOperators) (hnodes : ∀ n ∈ nodes, n.SelfNamed) :
    frontiers out = frontiers nodes := by
  cases h with
  | nil => rfl
  | cons _ h => exact h.frontiers hops (List.forall_mem_cons.1 hnodes).2

/-- **Folding keeps the frontiers** of the trees that it goes over -/
theorem Folds.frontiers {levels : List (List String)} {nodes out : List Node} (h : Folds levels nodes out)
    (hops : ∀ operators ∈ levels, ∀ op ∈ operators, op ∈ binaryOperators) (hnodes : ∀ n ∈ nodes, n.SelfNamed) :
    frontiers out = frontiers nodes := by
  induction h with
  | nil nodes => rfl
  | cons h _ ih =>
    obtain ⟨hfirst, hrest⟩ := List.forall_mem_cons.1 hops
    have hmid := h.forall_mem (fun _ _ _ _ _ _ => Node.selfNamed_binary _ _ _) hnodes
    rw [ih hrest hmid, h.frontiers hfirst hnodes]

/-! ## Reading tokens -/

/-- what a token stands for in a frontier: a function name for itself, any other token for its leaf or placeholder -/
def Scope.symbol (s : Scope) (t : Token) : Except ParseError Node :=
  if t.isFunction then .ok (.placeholder t.text) else s.tokenNode t

/-- the tokens that are no parentheses or commas -/
def visible (ts : List Token) : List Token := ts.filter (!·.isPunctuation)

theorem Scope.symbol_of_tokenNode {s : Scope} {t : Token} {n : Node} (h : s.tokenNode t = .ok n) :
    s.symbol t = .ok n := by
  rw [symbol, if_neg (by simp [isFunction_tokenNode h]), h]

theorem Scope.frontier_tokenNode {s : Scope} {t : Token} {n : Node} (h : s.tokenNode t = .ok n) : n.frontier = [n] := by
  rcases tokenNode_ok h with ⟨kind, text, rfl, -⟩ | ⟨-, rfl⟩
  · exact Node.frontier_value _ _
  · exact Node.frontier_value _ _

theorem Scope.selfNamed_tokenNode {s : Scope} {t : Token} {n : Node} (h : s.tokenNode t = .ok n) : n.SelfNamed := by
  rcases tokenNode_ok h with ⟨kind, text, rfl, -⟩ | ⟨-, rfl⟩
  · intro hleaf
    cases kind <;> simp [Node.isPlaceholder, Node.isLeaf, Node.leaf, LeafKind.tag, isLeafTag, LeafKind.ofTag?] at hleaf
  · exact fun _ => rfl

theorem not_mem_binaryOperators {name : String} (h : isFunctionName name = true) : name ∉ binaryOperators := by
  have hall : ∀ op ∈ binaryOperators, isFunctionName op = false := by decide +kernel
  intro hmem
  rw [hall name hmem] at h
  cases h

theorem visible_group {opener closer : Token} {inner ts : List Token} (ho : opener.isOperator "(" = true)
    (hc : closer.isOperator ")" = true) : visible (opener :: (inner ++ closer :: ts)) = visible inner ++ visible ts := by
  simp [visible, Token.isPunctuation, ho, hc]

/-- derived trees have the frontiers that their tokens spell out -/
theorem Derives.frontiers {vars : List Variable} {d : Nat} {ts : List Token} {ns : List Node} (h : Derives vars d ts ns) :
    (visible ts).map (Scope.symbol { vars }) = (frontiers ns).map .ok ∧ ∀ n ∈ ns, n.SelfNamed := by
  induction h with
  | nil d => exact ⟨rfl, by simp⟩
  | comma ht _ ih =>
    refine ⟨?_, ih.2⟩
    rw [← ih.1]
    simp [visible, Token.isPunctuation, ht]
  | token ht hn _ ih =>
    refine ⟨?_, List.forall_mem_cons.2 ⟨Scope.selfNamed_tokenNode hn, ih.2⟩⟩
    have hsymbol := Scope.symbol_of_tokenNode hn
    have hfrontier := Scope.frontier_tokenNode hn
    simp only [visible, Formula.frontiers] at ih ⊢
    simp [ht, hsymbol, hfrontier, ih.1]
  | group ho hc _ hf _ ihin ih =>
    have hfold := hf.frontiers (fun _ => mem_binaryOperators) ihin.2
    have hself := hf.forall_mem (fun _ _ _ _ _ _ _ _ => Node.selfNamed_binary _ _ _) ihin.2
    refine ⟨?_, List.forall_mem_append.2 ⟨hself, ih.2⟩⟩
    rw [visible_group ho hc, List.map_append, ihin.1, ih.1, ← hfold]
    simp [Formula.frontiers]
  | @call _ name _ _ _ _ _ folded _ hname ho hc _ hf _ ihin ih =>
    have hfold := hf.frontiers (fun _ => mem_binaryOperators) ihin.2
    have hvisible : name.isPunctuation = false := by
      simp [Token.isPunctuation, Token.isOperator_of_isFunction hname]
    have hfunction : isFunctionName name.text = true := (Bool.and_eq_true_iff.1 hname).2
    have hcall := Node.frontier_call (not_mem_binaryOperators hfunction) folded
    refine ⟨?_, List.forall_mem_cons.2 ⟨fun h => ?_, ih.2⟩⟩
    · have hcons : ∀ us, visible (name :: us) = name :: visible us := fun us => by simp [visible, hvisible]
      rw [hcons, visible_group ho hc, List.map_cons, List.map_append, ihin.1, ih.1, ← hfold, Scope.symbol, if_pos hname]
      simp [Formula.frontiers, hcall]
    · rcases folded with _ | ⟨n, folded⟩ <;> simp [Node.isPlaceholder, Node.call, Node.value?] at h

/-! ## Formulas -/

/-- a formula has a tree iff its tokens do -/
theorem Scope.tree_eq_ok_iff {s : Scope} {formula : String} {t : Node} :
    s.tree formula = .ok t ↔ ∃ tokens, tokenize formula = .ok tokens ∧ s.parse tokens = .ok t := by
  rw [tree, traceTree, Traced.outcome_bind_eq_ok]
  simp only [Traced.outcome_mapError, mapError_eq_ok_iff, Traced.outcome_ofExcept, parse]

/-- **No token is lost, duplicated or reordered**: the frontier of a parsed formula spells out its tokens, in their order,
without parentheses and commas -/
theorem frontier_tree {s : Scope} {formula : String} {t : Node} (h : s.tree formula = .ok t) :
    ∃ tokens, tokenize formula = .ok tokens ∧ (visible tokens).map s.symbol = t.frontier.map .ok := by
  obtain ⟨tokens, htokens, hparse⟩ := Scope.tree_eq_ok_iff.1 h
  obtain ⟨-, ns, hderives, hfolds⟩ := parse_eq_ok_iff.1 hparse
  obtain ⟨hspell, hself⟩ := hderives.frontiers
  have hfrontier := hfolds.frontiers (fun _ => mem_binaryOperators) hself
  refine ⟨tokens, htokens, ?_⟩
  rw [← hfrontier, frontiers, List.flatMap_singleton] at hspell
  exact hspell

/-- a group of two entries, an operator that is an operand of another, a parameter in a string -/
def oddTree : Node :=
  .call "LTRIM" [.number "1.000000", .binary "+" (.number "2.000000") (.placeholder "+"), .binary "||" (.string "Bo") .null]

theorem frontier_tree_odd :
    Scope.tree { vars := [⟨"$NAME", .string, "Bo"⟩] } "LTRIM((1 2) + +, '$NAME' || NULL)" = .ok oddTree ∧
      ∃ tokens, tokenize "LTRIM((1 2) + +, '$NAME' || NULL)" = .ok tokens ∧
        (visible tokens).map (Scope.symbol { vars := [⟨"$NAME", .string, "Bo"⟩] }) = oddTree.frontier.map .ok := by
  have htree : Scope.tree { vars := [⟨"$NAME", .string, "Bo"⟩] } "LTRIM((1 2) + +, '$NAME' || NULL)" = .ok oddTree := by
    decide +kernel
  exact ⟨htree, frontier_tree htree⟩

end Formula
