/-
The shape of the trees that formulas stand for.

Every node of such a tree is a value, a word that stands for itself, an operation over two trees or a call over any number
of trees (`Node.Formed`, `formed_tree`), and only one of these (`HasShape.unique`). Folding uses up the operators of a list,
so an operator that stands for itself (`Node.IsBare`) is neither the whole tree nor an argument of a call: `shape_tree`.

It can be an operand all the same: an operator takes its neighbours as they are, also where a neighbour is an operator that
waits for its own pass. `operators_complete_iff`: that happens exactly in the formulas that have two operators next to each
other. In all others every operator has its two operands.
-/
import Mathlib.Tactic
import Formula.Proofs.Frontier
import Formula.Proofs.Functions
import Formula.Proofs.NestingLimit
import Formula.Proofs.TokenClasses

namespace Formula

/-! ## Trees -/

namespace Node

/-- `m` is the tree itself or a part of it -/
inductive PartOf (m : Node) : Node → Prop where
  | whole : PartOf m m
  | child {tag : String} {args : List Arg} {n : Node} (hn : .node n ∈ args) (h : PartOf m n) : PartOf m ⟨tag, args⟩

theorem partOf_value {m : Node} {tag text : String} (h : m.PartOf ⟨tag, [.value text]⟩) : m = ⟨tag, [.value text]⟩ := by
  cases h with
  | whole => rfl
  | child hn _ => simp at hn

theorem partOf_call {m : Node} {name : String} {args : List Node} (h : m.PartOf (.call name args)) :
    m = .call name args ∨ ∃ n ∈ args, m.PartOf n := by
  cases h with
  | whole => exact .inl rfl
  | @child _ _ k hk h =>
    obtain ⟨n, hn, heq⟩ := List.mem_map.1 hk
    obtain rfl := Arg.node.inj heq
    exact .inr ⟨n, hn, h⟩

theorem partOf_binary {m left right : Node} {op : String} (h : m.PartOf (.binary op left right)) :
    m = .binary op left right ∨ m.PartOf left ∨ m.PartOf right := by
  have hcall : m.PartOf (.call op [left, right]) := h
  rcases partOf_call hcall with rfl | ⟨n, hn, hpart⟩
  · exact .inl rfl
  · rcases List.mem_pair.1 hn with rfl | rfl
    · exact .inr (.inl hpart)
    · exact .inr (.inr hpart)

/-- an operator that stands for itself -/
def IsBare (n : Node) : Prop := ∃ op ∈ binaryOperators, n = .placeholder op

end Node

/-- the words that can stand for themselves in a tree: no punctuation, and not the null value -/
def standingWords : List String := symbols.filter (· ∉ ["(", ")", ","]) ++ reservedWords.filter (· ≠ "NULL")

theorem isLeafTag_standingWord {word : String} (h : word ∈ standingWords) : isLeafTag word = false := by
  have hall : ∀ word ∈ standingWords, isLeafTag word = false := by decide +kernel
  exact hall word h

/-- the trees that formulas are made of -/
inductive Node.Formed : Node → Prop where
  | value {n : Node} (h : n.IsValue) : Formed n
  | word {text : String} (h : text ∈ standingWords) : Formed (.placeholder text)
  | binary {op : String} {left right : Node} (hop : op ∈ binaryOperators) (hleft : Formed left) (hright : Formed right) :
      Formed (.binary op left right)
  | call {name : String} {args : List Node} (hname : isFunctionName name = true) (hargs : ∀ n ∈ args, Formed n)
      (hbare : ∀ n ∈ args, ¬n.IsBare) : Formed (.call name args)

namespace Node

theorem IsOperand.not_isBare {n : Node} (h : n.IsOperand) : ¬n.IsBare := by
  rintro ⟨op, hop, rfl⟩
  obtain ⟨operators, hoperators, hmem⟩ := List.mem_flatten.1 hop
  have hoperator := h operators hoperators
  rw [isOperator_placeholder hop, List.contains_iff_mem.2 hmem] at hoperator
  cases hoperator

theorem IsValue.tag_not_mem {n : Node} (h : n.IsValue) : n.tag ∉ binaryOperators := by
  obtain ⟨kind, text, rfl, -⟩ := h
  intro hmem
  have hleaf : isLeafTag (leaf kind text).tag = true := by cases kind <;> rfl
  rw [isLeafTag_of_mem hmem] at hleaf
  cases hleaf

/-- the parts of a tree of formulas are such trees -/
theorem Formed.part {t n : Node} (h : t.Formed) (hn : n.PartOf t) : n.Formed := by
  induction h with
  | value h =>
    obtain ⟨kind, text, rfl, hnumber⟩ := h
    rw [partOf_value hn]
    exact .value ⟨kind, text, rfl, hnumber⟩
  | word h =>
    rw [partOf_value hn]
    exact .word h
  | binary hop hleft hright ihleft ihright =>
    rcases partOf_binary hn with rfl | hn | hn
    · exact .binary hop hleft hright
    · exact ihleft hn
    · exact ihright hn
  | call hname hargs hbare ih =>
    rcases partOf_call hn with rfl | ⟨m, hm, hn⟩
    · exact .call hname hargs hbare
    · exact ih m hm hn

/-- a node tagged with an operator is an operation, unless it stands for itself -/
theorem Formed.complete_iff {n : Node} (h : n.Formed) :
    (n.tag ∈ binaryOperators → ∃ left right, n = .binary n.tag left right) ↔ ¬n.IsBare := by
  cases h with
  | value h =>
    refine iff_of_true (fun hmem => absurd hmem h.tag_not_mem) ?_
    rintro ⟨op, hop, rfl⟩
    exact h.tag_not_mem hop
  | @word text h =>
    constructor
    · rintro hcomplete ⟨op, hop, heq⟩
      have htag : text = op := congrArg tag heq
      obtain ⟨left, right, hbinary⟩ := hcomplete (htag ▸ hop)
      cases congrArg args hbinary
    · intro hbare hmem
      exact absurd ⟨text, hmem, rfl⟩ hbare
  | @binary op left right hop hleft hright =>
    refine iff_of_true (fun _ => ⟨left, right, rfl⟩) ?_
    rintro ⟨op', -, heq⟩
    cases heq
  | @call name args hname hargs hbare =>
    refine iff_of_true (fun hmem => absurd hmem (not_mem_binaryOperators hname)) ?_
    rintro ⟨op, hop, heq⟩
    have htag : name = op := congrArg tag heq
    exact not_mem_binaryOperators hname (htag ▸ hop)

end Node

/-! ## Parsing -/

/-- a single token stands for a value, or for the placeholder of an operator or reserved word -/
theorem Scope.isValue_tokenNode {s : Scope} {t : Token} {n : Node} (h : s.tokenNode t = .ok n) :
    n.IsValue ∨ (t.kind = .operator ∨ t.kind = .keyword) ∧ n = .placeholder t.text := by
  rcases tokenNode_ok h with ⟨kind, text, rfl, hnumber⟩ | hplaceholder
  · refine .inl ⟨kind, text, rfl, ?_⟩
    intro hkind
    obtain ⟨source, hsource⟩ := hnumber hkind
    exact canonicalize_canonicalize hsource
  · exact .inr hplaceholder

theorem Scope.formed_tokenNode {s : Scope} {t : Token} {n : Node} (h : s.tokenNode t = .ok n)
    (hplain : t.isPunctuation = false) (ht : t.Classed) : n.Formed := by
  rcases isValue_tokenNode h with hvalue | ⟨hkind | hkind, rfl⟩
  · exact .value hvalue
  · have hpunctuation : t.text ∉ ["(", ")", ","] := by
      simpa [Token.isPunctuation, Token.isOperator, hkind, and_assoc] using hplain
    have hstanding : t.text ∈ symbols.filter (· ∉ ["(", ")", ","]) :=
      List.mem_filter.2 ⟨ht.operator hkind, by simpa using hpunctuation⟩
    exact .word (List.mem_append_left _ hstanding)
  · by_cases hnull : t.text = "NULL"
    · rw [hnull]
      exact .value ⟨.null, "NULL", rfl, by simp⟩
    · have hstanding : t.text ∈ reservedWords.filter (· ≠ "NULL") :=
        List.mem_filter.2 ⟨(ht.keyword hkind).1, by simpa using hnull⟩
      exact .word (List.mem_append_right _ hstanding)

theorem Folds.formed {nodes out : List Node} (h : Folds precedence nodes out) (hnodes : ∀ n ∈ nodes, n.Formed) :
    ∀ n ∈ out, n.Formed := by
  refine h.forall_mem ?_ hnodes
  intro operators hoperators op hop left right hleft hright
  exact .binary (mem_binaryOperators hoperators hop) hleft hright

theorem Folds.not_isBare {nodes out : List Node} (h : Folds precedence nodes out) : ∀ n ∈ out, ¬n.IsBare :=
  fun n hn => (h.isOperand n hn).not_isBare

theorem Derives.formed {vars : List Variable} {depth : Nat} {ts : List Token} {ns : List Node}
    (h : Derives vars depth ts ns) (hts : ∀ t ∈ ts, t.Classed) : ∀ n ∈ ns, n.Formed := by
  induction h with
  | nil depth => simp
  | comma _ _ ih => exact ih fun t ht => hts t (List.mem_cons_of_mem _ ht)
  | token hplain hn _ ih =>
    obtain ⟨ht, hts⟩ := List.forall_mem_cons.1 hts
    exact List.forall_mem_cons.2 ⟨Scope.formed_tokenNode hn hplain ht, ih hts⟩
  | group _ _ _ hf _ ihin ih =>
    have hinner := hf.formed (ihin fun t ht => hts t (by simp [ht]))
    exact List.forall_mem_append.2 ⟨hinner, ih fun t ht => hts t (by simp [ht])⟩
  | call hname _ _ _ hf _ ihin ih =>
    have hfunction := (Bool.and_eq_true_iff.1 hname).2
    have hargs := hf.formed (ihin fun t ht => hts t (by simp [ht]))
    exact List.forall_mem_cons.2 ⟨.call hfunction hargs hf.not_isBare, ih fun t ht => hts t (by simp [ht])⟩

/-- **Formulas stand for trees of this shape**, and a whole formula is no bare operator -/
theorem formed_tree {s : Scope} {formula : String} {t : Node} (h : s.tree formula = .ok t) : t.Formed ∧ ¬t.IsBare := by
  obtain ⟨tokens, htokens, hparse⟩ := Scope.tree_eq_ok_iff.1 h
  obtain ⟨-, ns, hderives, hfolds⟩ := parse_eq_ok_iff.1 hparse
  have hns := hderives.formed (classed_of_tokenize htokens)
  exact ⟨hfolds.formed hns t (List.mem_singleton_self t), hfolds.not_isBare t (List.mem_singleton_self t)⟩

/-! ## The shape of each node -/

/-- what a node in the tree of a formula can be -/
inductive Shape where
  | value
  | word
  | operation
  | call
deriving DecidableEq, Repr

namespace Node

/-- the node is a value, a word that stands for itself, an operator over two trees or a function over any trees -/
def HasShape (n : Node) : Shape → Prop
  | .value => n.IsValue
  | .word => ∃ text ∈ standingWords, n = .placeholder text
  | .operation => ∃ op ∈ binaryOperators, ∃ left right, n = .binary op left right
  | .call => ∃ name args, isFunctionName name = true ∧ n = .call name args

/-- the shape of a node as its tag and its text tell it -/
def shape (n : Node) : Shape :=
  if n.isLeaf then .value
  else if n.value?.isSome then .word
  else if n.tag ∈ binaryOperators then .operation
  else .call

theorem HasShape.shape_eq {n : Node} {k : Shape} (h : n.HasShape k) : n.shape = k := by
  cases k with
  | value =>
    obtain ⟨kind, text, rfl, -⟩ := h
    have hleaf : (leaf kind text).isLeaf = true := by cases kind <;> rfl
    rw [shape, if_pos hleaf]
  | word =>
    obtain ⟨text, htext, rfl⟩ := h
    have hleaf : (placeholder text).isLeaf = false := isLeafTag_standingWord htext
    rw [shape, hleaf]
    rfl
  | operation =>
    obtain ⟨op, hop, left, right, rfl⟩ := h
    have hleaf : (binary op left right).isLeaf = false := isLeafTag_of_mem hop
    rw [shape, hleaf]
    exact if_pos hop
  | call =>
    obtain ⟨name, args, hname, rfl⟩ := h
    have hleaf : (call name args).isLeaf = false := isLeafTag_functionName hname
    have hvalue : (call name args).value? = none := by
      rcases args with _ | ⟨n, args⟩ <;> rfl
    rw [shape, hleaf, hvalue]
    exact if_neg (not_mem_binaryOperators hname)

/-- a node is of one shape only -/
theorem HasShape.unique {n : Node} {k k' : Shape} (h : n.HasShape k) (h' : n.HasShape k') : k = k' :=
  h.shape_eq.symm.trans h'.shape_eq

theorem Formed.exists_shape {n : Node} (h : n.Formed) : ∃ k, n.HasShape k := by
  cases h with
  | value h => exact ⟨.value, h⟩
  | word h => exact ⟨.word, _, h, rfl⟩
  | binary hop _ _ => exact ⟨.operation, _, hop, _, _, rfl⟩
  | call hname _ _ => exact ⟨.call, _, _, hname, rfl⟩

theorem Formed.not_isBare_of_call {n m : Node} (h : n.Formed) (hcall : n.HasShape .call) (hm : .node m ∈ n.args) :
    ¬m.IsBare := by
  cases h with
  | value h =>
    have hvalue : n.HasShape .value := h
    cases hvalue.unique hcall
  | @word text h =>
    have hword : (placeholder text).HasShape .word := ⟨text, h, rfl⟩
    cases hword.unique hcall
  | @binary op left right hop _ _ =>
    have hoperation : (Node.binary op left right).HasShape .operation := ⟨op, hop, left, right, rfl⟩
    cases hoperation.unique hcall
  | call _ _ hbare =>
    obtain ⟨k, hk, heq⟩ := List.mem_map.1 hm
    obtain rfl := Arg.node.inj heq
    exact hbare k hk

end Node

/-- **The shape of a formula's tree.** Each of its nodes is exactly one of these: a value, a word that stands for itself, an
operator over two trees, a function over any number of trees. An operator that stands for itself is neither the whole tree
nor an argument of a function. -/
theorem shape_tree {s : Scope} {formula : String} {t : Node} (h : s.tree formula = .ok t) :
    (∀ n : Node, n.PartOf t → ∃! k, n.HasShape k) ∧ ¬t.IsBare ∧
      ∀ n m : Node, n.PartOf t → n.HasShape .call → .node m ∈ n.args → ¬m.IsBare := by
  obtain ⟨hformed, hroot⟩ := formed_tree h
  refine ⟨?_, hroot, ?_⟩
  · intro n hn
    obtain ⟨k, hk⟩ := (hformed.part hn).exists_shape
    refine ⟨k, hk, ?_⟩
    intro k' hk'
    exact hk'.unique hk
  · intro n m hn hcall hm
    exact (hformed.part hn).not_isBare_of_call hcall hm

/-- a word under a function, and an operator that stands for itself, but only under another operator -/
def wordyTree : Node := .call "IIF" [.placeholder "TRUE", .binary "*" (.number "1.000000") (.placeholder "+"), .null]

theorem shape_tree_wordy :
    Scope.tree {} "IIF(TRUE, 1 * +, NULL)" = .ok wordyTree ∧
      (∃! k, (Node.placeholder "+").HasShape k) ∧ ¬wordyTree.IsBare ∧ ∀ m, .node m ∈ wordyTree.args → ¬m.IsBare := by
  have htree : Scope.tree {} "IIF(TRUE, 1 * +, NULL)" = .ok wordyTree := by decide +kernel
  obtain ⟨hshape, hroot, hargs⟩ := shape_tree htree
  have hplus : (Node.placeholder "+").PartOf wordyTree :=
    .child (List.mem_map_of_mem (List.mem_cons_of_mem _ List.mem_cons_self)) (.child (by simp) .whole)
  refine ⟨htree, hshape _ hplus, hroot, ?_⟩
  intro m hm
  exact hargs wordyTree m .whole ⟨_, _, by decide +kernel, rfl⟩ hm

/-! ## Bare operators in a frontier -/

/-- no bare operator at either end, and no two of them next to each other -/
structure Apart (ns : List Node) : Prop where
  pairs : ns.IsChain fun x y => ¬(x.IsBare ∧ y.IsBare)
  head : ∀ x ∈ ns.head?, ¬x.IsBare
  last : ∀ x ∈ ns.getLast?, ¬x.IsBare

namespace Apart

theorem nil : Apart [] := ⟨.nil, by simp, by simp⟩

theorem single {n : Node} (h : ¬n.IsBare) : Apart [n] := ⟨.singleton n, by simpa using h, by simpa using h⟩

theorem append {ns ms : List Node} (hns : Apart ns) (hms : Apart ms) : Apart (ns ++ ms) := by
  refine ⟨List.isChain_append.2 ⟨hns.pairs, hms.pairs, ?_⟩, ?_, ?_⟩
  · intro x hx y hy hbare
    exact hns.last x hx hbare.1
  · intro x hx
    rw [List.head?_append, Option.mem_def, Option.or_eq_some_iff] at hx
    rcases hx with hx | ⟨-, hx⟩
    · exact hns.head x hx
    · exact hms.head x hx
  · intro x hx
    rw [List.getLast?_append, Option.mem_def, Option.or_eq_some_iff] at hx
    rcases hx with hx | ⟨-, hx⟩
    · exact hms.last x hx
    · exact hns.last x hx

/-- an operator may stand between two stretches that are not empty -/
theorem operation {ns ms : List Node} (hns : Apart ns) (hms : Apart ms) (hns' : ns ≠ []) (hms' : ms ≠ []) (n : Node) :
    Apart (ns ++ n :: ms) := by
  refine ⟨List.isChain_append.2 ⟨hns.pairs, List.isChain_cons.2 ⟨?_, hms.pairs⟩, ?_⟩, ?_, ?_⟩
  · intro y hy hbare
    exact hms.head y hy hbare.2
  · intro x hx y hy hbare
    exact hns.last x hx hbare.1
  · intro x hx
    rw [List.head?_append_of_ne_nil _ hns'] at hx
    exact hns.head x hx
  · intro x hx
    rw [List.getLast?_append_of_ne_nil _ (List.cons_ne_nil n ms), List.getLast?_cons_of_ne_nil hms'] at hx
    exact hms.last x hx

theorem frontiers {nodes : List Node} (h : ∀ n ∈ nodes, Apart n.frontier) : Apart (frontiers nodes) := by
  induction nodes with
  | nil => exact .nil
  | cons n nodes ih =>
    obtain ⟨hn, hnodes⟩ := List.forall_mem_cons.1 h
    rw [Formula.frontiers, List.flatMap_cons]
    exact hn.append (ih hnodes)

end Apart

namespace Node

theorem Formed.frontier_ne_nil {t : Node} (h : t.Formed) : t.frontier ≠ [] := by
  cases h with
  | value h =>
    obtain ⟨kind, text, rfl, -⟩ := h
    rw [leaf, frontier_value]
    exact List.cons_ne_nil _ _
  | word h =>
    rw [placeholder, frontier_value]
    exact List.cons_ne_nil _ _
  | binary hop _ _ =>
    rw [frontier_binary hop]
    exact List.append_ne_nil_of_right_ne_nil _ (List.cons_ne_nil _ _)
  | call hname _ _ =>
    rw [frontier_call (not_mem_binaryOperators hname)]
    exact List.cons_ne_nil _ _

theorem IsBare.frontier {n : Node} (h : n.IsBare) : n.frontier = [n] := by
  obtain ⟨op, -, rfl⟩ := h
  exact frontier_value _ _

/-- without bare operators in a tree there are no two operators next to each other in its frontier -/
theorem Formed.apart {t : Node} (h : t.Formed) (hbare : ∀ n : Node, n.PartOf t → ¬n.IsBare) : Apart t.frontier := by
  induction h with
  | value h =>
    obtain ⟨kind, text, rfl, -⟩ := h
    rw [leaf, frontier_value]
    exact .single (hbare _ .whole)
  | word h =>
    rw [placeholder, frontier_value]
    exact .single (hbare _ .whole)
  | binary hop hleft hright ihleft ihright =>
    have hl : Apart _ := ihleft fun n hn => hbare n (.child (by simp) hn)
    have hr : Apart _ := ihright fun n hn => hbare n (.child (by simp) hn)
    rw [frontier_binary hop]
    exact hl.operation hr hleft.frontier_ne_nil hright.frontier_ne_nil _
  | @call name args hname hargs _ ih =>
    have hname' := not_mem_binaryOperators hname
    have hself : ¬(placeholder name).IsBare := by
      rintro ⟨op, hop, heq⟩
      have htag : name = op := congrArg tag heq
      exact hname' (htag ▸ hop)
    rw [frontier_call hname']
    refine (Apart.single hself).append (.frontiers ?_)
    intro n hn
    apply ih n hn
    intro m hm
    exact hbare m (.child (List.mem_map_of_mem hn) hm)

/-- a bare operator in a tree stands next to another operator -/
theorem Formed.exists_pair {t n : Node} (h : t.Formed) (ht : ¬t.IsBare) (hn : n.PartOf t) (hbare : n.IsBare) :
    ∃ x y, [x, y] <:+: t.frontier ∧ x.IsBare ∧ y.IsBare := by
  induction h with
  | value h =>
    obtain ⟨kind, text, rfl, -⟩ := h
    rw [partOf_value hn] at hbare
    exact absurd hbare ht
  | word h =>
    rw [partOf_value hn] at hbare
    exact absurd hbare ht
  | @binary op left right hop hleft hright ihleft ihright =>
    have hself : (placeholder op).IsBare := ⟨op, hop, rfl⟩
    rw [frontier_binary hop]
    rcases partOf_binary hn with rfl | hn | hn
    · exact absurd hbare ht
    · by_cases hl : left.IsBare
      · -- the operand itself is bare: it stands right before `op`
        rw [hl.frontier]
        exact ⟨left, placeholder op, (List.prefix_append [left, placeholder op] _).isInfix, hl, hself⟩
      · obtain ⟨x, y, hpair, hx, hy⟩ := ihleft hl hn
        exact ⟨x, y, hpair.trans (List.prefix_append _ _).isInfix, hx, hy⟩
    · by_cases hr : right.IsBare
      · rw [hr.frontier]
        exact ⟨placeholder op, right, (List.suffix_append _ [placeholder op, right]).isInfix, hself, hr⟩
      · obtain ⟨x, y, hpair, hx, hy⟩ := ihright hr hn
        have hsuffix : right.frontier <:+ left.frontier ++ placeholder op :: right.frontier :=
          (List.suffix_cons _ _).trans (List.suffix_append _ _)
        exact ⟨x, y, hpair.trans hsuffix.isInfix, hx, hy⟩
  | @call name args hname hargs hbares ih =>
    rcases partOf_call hn with rfl | ⟨m, hm, hn⟩
    · exact absurd hbare ht
    · obtain ⟨x, y, hpair, hx, hy⟩ := ih m hm (hbares m hm) hn
      have hinfix : m.frontier <:+: frontiers args := List.infix_of_mem_flatten (List.mem_map_of_mem hm)
      rw [frontier_call (not_mem_binaryOperators hname)]
      exact ⟨x, y, (hpair.trans hinfix).trans (List.suffix_cons _ _).isInfix, hx, hy⟩

theorem Formed.forall_not_isBare_iff {t : Node} (h : t.Formed) (ht : ¬t.IsBare) :
    (∀ n : Node, n.PartOf t → ¬n.IsBare) ↔ ¬∃ x y, [x, y] <:+: t.frontier ∧ x.IsBare ∧ y.IsBare := by
  constructor
  · intro hbare hpair
    obtain ⟨x, y, hxy, hx, hy⟩ := hpair
    have hchain := List.IsChain.infix (h.apart hbare).pairs hxy
    exact List.isChain_pair.1 hchain ⟨hx, hy⟩
  · intro hnone n hn hbare
    exact hnone (h.exists_pair ht hn hbare)

end Node

/-! ## Operators without operands -/

/-- the tokens of bare operators are the binary operators -/
theorem Scope.isBare_symbol_iff {s : Scope} {t : Token} {n : Node} (h : s.symbol t = .ok n) (ht : t.Classed) :
    n.IsBare ↔ t.IsBinary := by
  constructor
  · rintro ⟨op, hop, rfl⟩
    unfold symbol at h
    split_ifs at h with hfunction
    · have htext : t.text = op := congrArg Node.tag (Except.ok.inj h)
      have hname := (Bool.and_eq_true_iff.1 hfunction).2
      exact absurd (htext ▸ hop) (not_mem_binaryOperators hname)
    · rcases isValue_tokenNode h with hvalue | ⟨hkind, heq⟩
      · exact absurd hop hvalue.tag_not_mem
      · obtain rfl : op = t.text := congrArg Node.tag heq
        rcases hkind with hkind | hkind
        · exact ⟨hkind, hop⟩
        · exact absurd (mem_symbols hop) (ht.keyword hkind).2
  · rintro ⟨hkind, hop⟩
    have hsymbol : s.symbol t = .ok (.placeholder t.text) := by
      simp [symbol, Token.isFunction, tokenNode, hkind]
    rw [hsymbol] at h
    exact ⟨t.text, hop, (Except.ok.inj h).symm⟩

theorem Scope.parse_of_tree {s : Scope} {formula : String} {tokens : List Token} {t : Node}
    (htokens : tokenize formula = .ok tokens) (h : s.tree formula = .ok t) : s.parse tokens = .ok t := by
  obtain ⟨tokens', htokens', hparse⟩ := tree_eq_ok_iff.1 h
  rw [htokens] at htokens'
  rwa [Except.ok.inj htokens']

/-- the frontier of the tree of a token list spells out the tokens -/
theorem Scope.symbols_parse {s : Scope} {tokens : List Token} {t : Node} (h : s.parse tokens = .ok t) :
    (visible tokens).map s.symbol = t.frontier.map .ok := by
  obtain ⟨-, ns, hderives, hfolds⟩ := parse_eq_ok_iff.1 h
  obtain ⟨hspell, hself⟩ := hderives.frontiers
  have hfrontier : t.frontier = frontiers ns := by
    calc t.frontier = frontiers [t] := (List.flatMap_singleton _ _).symm
      _ = frontiers ns := hfolds.frontiers (fun _ => mem_binaryOperators) hself
  rw [hfrontier]
  exact hspell

/-- lists that read alike have their neighbours in the same places -/
theorem exists_pair_of_map_eq {α β γ : Type} {f : α → γ} {g : β → γ} {l : List α} {k : List β} (h : l.map f = k.map g)
    {a b : α} (hpair : [a, b] <:+: l) : ∃ x y, [x, y] <:+: k ∧ f a = g x ∧ f b = g y := by
  have hmap : [f a, f b] <:+: k.map g := by
    rw [← h]
    exact hpair.map f
  obtain ⟨j, hj, heq⟩ := List.infix_map_iff.1 hmap
  obtain ⟨x, rest, rfl, hx, hrest⟩ := List.map_eq_cons_iff.1 heq.symm
  obtain ⟨y, rfl, hy⟩ := List.map_eq_singleton_iff.1 hrest
  exact ⟨x, y, hj, hx.symm, hy.symm⟩

/-- the tree has bare operators next to each other where the tokens have operators -/
theorem Scope.exists_bare_pair_iff {s : Scope} {tokens : List Token} {t : Node} (h : s.parse tokens = .ok t)
    (hclassed : ∀ u ∈ tokens, u.Classed) :
    (∃ x y, [x, y] <:+: t.frontier ∧ x.IsBare ∧ y.IsBare) ↔
      ∃ a b, [a, b] <:+: visible tokens ∧ a.IsBinary ∧ b.IsBinary := by
  have hspell := symbols_parse h
  have hvisible : ∀ {a b}, [a, b] <:+: visible tokens → a.Classed ∧ b.Classed := by
    intro a b hpair
    have hmem : ∀ u ∈ [a, b], u.Classed := fun u hu => hclassed u (List.mem_of_mem_filter (hpair.subset hu))
    exact ⟨hmem a (by simp), hmem b (by simp)⟩
  constructor
  · rintro ⟨x, y, hxy, hx, hy⟩
    obtain ⟨a, b, hpair, ha, hb⟩ := exists_pair_of_map_eq hspell.symm hxy
    obtain ⟨hca, hcb⟩ := hvisible hpair
    exact ⟨a, b, hpair, (isBare_symbol_iff ha.symm hca).1 hx, (isBare_symbol_iff hb.symm hcb).1 hy⟩
  · rintro ⟨a, b, hpair, ha, hb⟩
    obtain ⟨x, y, hxy, hx, hy⟩ := exists_pair_of_map_eq hspell hpair
    obtain ⟨hca, hcb⟩ := hvisible hpair
    exact ⟨x, y, hxy, (isBare_symbol_iff hx hca).2 ha, (isBare_symbol_iff hy hcb).2 hb⟩

/-- **Operators lack an operand only next to each other.** All operators in the tree of a formula have two operands, unless
the formula has two operators with nothing but parentheses and commas between them. -/
theorem operators_complete_iff {s : Scope} {formula : String} {tokens : List Token} {t : Node}
    (htokens : tokenize formula = .ok tokens) (h : s.tree formula = .ok t) :
    (∀ n : Node, n.PartOf t → n.tag ∈ binaryOperators → ∃ left right, n = .binary n.tag left right) ↔
      ¬∃ a b, [a, b] <:+: visible tokens ∧ a.IsBinary ∧ b.IsBinary := by
  obtain ⟨hformed, hroot⟩ := formed_tree h
  have hparse := Scope.parse_of_tree htokens h
  calc (∀ n : Node, n.PartOf t → n.tag ∈ binaryOperators → ∃ left right, n = .binary n.tag left right)
      ↔ ∀ n : Node, n.PartOf t → ¬n.IsBare := forall₂_congr fun n hn => (hformed.part hn).complete_iff
    _ ↔ ¬∃ x y, [x, y] <:+: t.frontier ∧ x.IsBare ∧ y.IsBare := hformed.forall_not_isBare_iff hroot
    _ ↔ ¬∃ a b, [a, b] <:+: visible tokens ∧ a.IsBinary ∧ b.IsBinary :=
        not_congr (Scope.exists_bare_pair_iff hparse (classed_of_tokenize htokens))

/-- the tokens of `1 * +` -/
def doubledTokens : List Token :=
  [⟨.number, "1", ⟨0, 1, 1⟩⟩, ⟨.operator, "*", ⟨2, 1, 3⟩⟩, ⟨.operator, "+", ⟨4, 1, 5⟩⟩]

/-- an operator that has nothing on its right is taken for the right operand of the operator before it -/
theorem operators_complete_iff_doubled :
    tokenize "1 * +" = .ok doubledTokens ∧
      Scope.tree {} "1 * +" = .ok (.binary "*" (.number "1.000000") (.placeholder "+")) ∧
      ¬∀ n : Node, n.PartOf (.binary "*" (.number "1.000000") (.placeholder "+")) → n.tag ∈ binaryOperators →
        ∃ left right, n = .binary n.tag left right := by
  have htokens : tokenize "1 * +" = .ok doubledTokens := by decide +kernel
  have htree : Scope.tree {} "1 * +" = .ok (.binary "*" (.number "1.000000") (.placeholder "+")) := by decide +kernel
  have hpair : [(⟨.operator, "*", ⟨2, 1, 3⟩⟩ : Token), ⟨.operator, "+", ⟨4, 1, 5⟩⟩] <:+: visible doubledTokens :=
    ⟨[⟨.number, "1", ⟨0, 1, 1⟩⟩], [], by decide⟩
  refine ⟨htokens, htree, ?_⟩
  intro hcomplete
  exact (operators_complete_iff htokens htree).1 hcomplete ⟨_, _, hpair, by decide, by decide⟩

end Formula
