/-
Precedence and associativity.

Folding has no precedence table to consult: the tree of an operator chain comes out of seven passes over a flat list.
`chainTree` says which tree that is. It splits a chain at the rightmost operator of the loosest level that occurs in it,
makes this operator the root, and goes on with the two parts.

One pass over the tightest remaining level does not change the tree that `chainTree` gives (`chainTree_pass`), and
after all passes one operand is left (`folds_chain`). `parse_chain` puts this together with what an operand of a chain
reads as: a single token, a call or a group, each of which parses to one tree by itself.
-/
import Mathlib.Tactic
import Formula.Proofs.Derivation

namespace Formula

/-- the binary operators of all levels -/
def binaryOperators : List String := precedence.flatten

theorem mem_binaryOperators {operators : List String} (h : operators ∈ precedence) {op : String} (hop : op ∈ operators) :
    op ∈ binaryOperators :=
  List.mem_flatten.2 ⟨operators, h, hop⟩

theorem mem_symbols {op : String} (h : op ∈ binaryOperators) : op ∈ symbols := by
  have hall : ∀ op ∈ binaryOperators, op ∈ symbols := by decide +kernel
  exact hall op h

/-- the level of an operator, 0 for the tightest -/
def levelOf (op : String) : Nat := precedence.findIdx (·.contains op)

/-! ## The tree of a chain -/

/-- what follows the first operand of a chain: operators, each with the operand on its right -/
abbrev Links := List (String × Node)

/-- a chain split at its rightmost operator that satisfies `p`: what is before, the operator and operand, what is after -/
def splitLast? (p : String → Bool) : Links → Option (Links × (String × Node) × Links)
  | [] => none
  | link :: rest =>
    match splitLast? p rest with
    | some (before, mid, after) => some (link :: before, mid, after)
    | none => if p link.1 then some ([], link, rest) else none

/-- the loosest level of a chain -/
def loosest (links : Links) : Nat := links.foldr (fun link level => max (levelOf link.1) level) 0

theorem splitLast?_eq_none {p : String → Bool} {links : Links} (h : splitLast? p links = none) :
    ∀ link ∈ links, p link.1 = false := by
  induction links with
  | nil => simp
  | cons link rest ih =>
    rw [splitLast?] at h
    split at h
    · simp at h
    · rename_i hrest
      split_ifs at h with hp
      exact List.forall_mem_cons.2 ⟨by simpa using hp, ih hrest⟩

theorem splitLast?_eq_some {p : String → Bool} {links before after : Links} {mid : String × Node}
    (h : splitLast? p links = some (before, mid, after)) :
    links = before ++ mid :: after ∧ p mid.1 = true ∧ ∀ link ∈ after, p link.1 = false := by
  induction links generalizing before with
  | nil => simp [splitLast?] at h
  | cons link rest ih =>
    rw [splitLast?] at h
    split at h
    · rename_i b m a hrest
      simp only [Option.some.injEq, Prod.mk.injEq] at h
      obtain ⟨rfl, rfl, rfl⟩ := h
      obtain ⟨rfl, hp, ha⟩ := ih hrest
      exact ⟨rfl, hp, ha⟩
    · rename_i hrest
      split_ifs at h with hp
      simp only [Option.some.injEq, Prod.mk.injEq] at h
      obtain ⟨rfl, rfl, rfl⟩ := h
      exact ⟨rfl, hp, splitLast?_eq_none hrest⟩

theorem splitLast?_append {p : String → Bool} {before after : Links} {mid : String × Node} (hmid : p mid.1 = true)
    (hafter : ∀ link ∈ after, p link.1 = false) :
    splitLast? p (before ++ mid :: after) = some (before, mid, after) := by
  have hnone : splitLast? p after = none := by
    rw [Option.eq_none_iff_forall_ne_some]
    rintro ⟨b, m, a⟩ h
    obtain ⟨rfl, hp, -⟩ := splitLast?_eq_some h
    simp [hafter m (by simp)] at hp
  induction before with
  | nil => simp [splitLast?, hnone, hmid]
  | cons link before ih => simp [splitLast?, ih]

theorem splitLast?_length {p : String → Bool} {links before after : Links} {mid : String × Node}
    (h : splitLast? p links = some (before, mid, after)) :
    before.length < links.length ∧ after.length < links.length := by
  obtain ⟨rfl, -⟩ := splitLast?_eq_some h
  simp only [List.length_append, List.length_cons]
  omega

/-- the tree of a chain: the rightmost operator of the loosest level is its root -/
def chainTree (first : Node) (links : Links) : Node :=
  match _h : splitLast? (fun op => levelOf op == loosest links) links with
  | none => first
  | some (before, (op, operand), after) => .binary op (chainTree first before) (chainTree operand after)
termination_by links.length
decreasing_by
  · exact (splitLast?_length _h).1
  · exact (splitLast?_length _h).2

@[simp]
theorem chainTree_nil (first : Node) : chainTree first [] = first := by
  rw [chainTree]
  rfl

theorem le_loosest {links : Links} {link : String × Node} (h : link ∈ links) : levelOf link.1 ≤ loosest links := by
  induction links with
  | nil => simp at h
  | cons l links ih =>
    simp only [loosest, List.foldr_cons] at ih ⊢
    rcases List.mem_cons.1 h with rfl | h
    · exact le_max_left _ _
    · exact (ih h).trans (le_max_right _ _)

theorem loosest_le {links : Links} {level : Nat} (h : ∀ link ∈ links, levelOf link.1 ≤ level) :
    loosest links ≤ level := by
  induction links with
  | nil => exact Nat.zero_le _
  | cons l links ih =>
    obtain ⟨hl, hlinks⟩ := List.forall_mem_cons.1 h
    exact max_le hl (ih hlinks)

theorem chainTree_of_splitLast? {first operand : Node} {op : String} {links before after : Links}
    (h : splitLast? (fun o => levelOf o == loosest links) links = some (before, (op, operand), after)) :
    chainTree first links = .binary op (chainTree first before) (chainTree operand after) := by
  rw [chainTree]
  split
  · simp_all
  · simp_all

/-- an operator that is at least as loose as all before it and looser than all after it is the root -/
theorem chainTree_split {first operand : Node} {op : String} {before after : Links}
    (hbefore : ∀ link ∈ before, levelOf link.1 ≤ levelOf op) (hafter : ∀ link ∈ after, levelOf link.1 < levelOf op) :
    chainTree first (before ++ (op, operand) :: after) =
      .binary op (chainTree first before) (chainTree operand after) := by
  have hloosest : loosest (before ++ (op, operand) :: after) = levelOf op := by
    apply le_antisymm
    · refine loosest_le (List.forall_mem_append.2 ⟨hbefore, List.forall_mem_cons.2 ⟨le_rfl, ?_⟩⟩)
      exact fun link hlink => (hafter link hlink).le
    · have hmem : (op, operand) ∈ before ++ (op, operand) :: after := by simp
      exact le_loosest hmem
  apply chainTree_of_splitLast?
  rw [hloosest]
  exact splitLast?_append (by simp) fun link hlink => by simpa using (hafter link hlink).ne

/-- every chain has such an operator -/
theorem exists_split {links : Links} (hne : links ≠ []) :
    ∃ before op operand after, links = before ++ (op, operand) :: after ∧
      (∀ link ∈ before, levelOf link.1 ≤ levelOf op) ∧ ∀ link ∈ after, levelOf link.1 < levelOf op := by
  induction links with
  | nil => exact absurd rfl hne
  | cons link rest ih =>
    by_cases hrest : rest = []
    · exact ⟨[], link.1, link.2, [], by simp [hrest], by simp, by simp⟩
    · obtain ⟨before, op, operand, after, rfl, hbefore, hafter⟩ := ih hrest
      by_cases hlevel : levelOf link.1 ≤ levelOf op
      · exact ⟨link :: before, op, operand, after, rfl, List.forall_mem_cons.2 ⟨hlevel, hbefore⟩, hafter⟩
      · refine ⟨[], link.1, link.2, _, rfl, by simp, List.forall_mem_append.2 ⟨?_, List.forall_mem_cons.2 ⟨?_, ?_⟩⟩⟩
        · exact fun l hl => lt_of_le_of_lt (hbefore l hl) (not_le.1 hlevel)
        · exact not_le.1 hlevel
        · exact fun l hl => (hafter l hl).trans (not_le.1 hlevel)

/-- operators of one level associate to the left -/
theorem chainTree_same_level {first : Node} {links : Links} {level : Nat} (h : ∀ link ∈ links, levelOf link.1 = level) :
    chainTree first links = links.foldl (fun left link => .binary link.1 left link.2) first := by
  induction links using List.reverseRecOn with
  | nil => simp
  | append_singleton links link ih =>
    obtain ⟨hlinks, hlink⟩ := List.forall_mem_append.1 h
    rw [List.forall_mem_singleton] at hlink
    have hsplit : chainTree first (links ++ [link]) = .binary link.1 (chainTree first links) (chainTree link.2 []) :=
      chainTree_split (fun l hl => by rw [hlinks l hl, hlink]) (by simp)
    rw [hsplit, ih hlinks, chainTree_nil, List.foldl_append]
    rfl

/-! ## One pass -/

/-- a chain after the operators that satisfy `p` have been folded -/
def passFrom (p : String → Bool) (left : Node) : Links → Node × Links
  | [] => (left, [])
  | (op, operand) :: rest =>
    if p op then passFrom p (.binary op left operand) rest
    else (left, (op, (passFrom p operand rest).1) :: (passFrom p operand rest).2)

section Pass

variable {p : String → Bool} {left operand : Node} {op : String} {links before after : Links}

theorem passFrom_all (h : ∀ link ∈ links, p link.1 = true) :
    passFrom p left links = (links.foldl (fun left link => .binary link.1 left link.2) left, []) := by
  induction links generalizing left with
  | nil => rfl
  | cons link links ih =>
    obtain ⟨hlink, hlinks⟩ := List.forall_mem_cons.1 h
    rw [passFrom, if_pos hlink, ih hlinks]
    rfl

/-- an operator that stays keeps the two sides of a pass apart -/
theorem passFrom_append (hop : p op = false) :
    passFrom p left (before ++ (op, operand) :: after) =
      ((passFrom p left before).1,
        (passFrom p left before).2 ++ (op, (passFrom p operand after).1) :: (passFrom p operand after).2) := by
  induction before generalizing left with
  | nil => simp [passFrom, hop]
  | cons link before ih =>
    rcases link with ⟨o, x⟩
    rw [List.cons_append, passFrom, passFrom]
    cases ho : p o with
    | true => simp [ih]
    | false => simp [ih]

/-- a pass leaves the operators that it does not fold -/
theorem mem_passFrom {link : String × Node} (h : link ∈ (passFrom p left links).2) :
    p link.1 = false ∧ ∃ l ∈ links, l.1 = link.1 := by
  induction links generalizing left with
  | nil => simp [passFrom] at h
  | cons l links ih =>
    rcases l with ⟨o, x⟩
    rw [passFrom] at h
    cases ho : p o with
    | true =>
      obtain ⟨hp, l, hl, heq⟩ := ih (by simpa [ho] using h)
      exact ⟨hp, l, List.mem_cons_of_mem _ hl, heq⟩
    | false =>
      simp only [ho, Bool.false_eq_true, if_false, List.mem_cons] at h
      rcases h with rfl | h
      · exact ⟨ho, _, List.mem_cons_self, rfl⟩
      · obtain ⟨hp, l, hl, heq⟩ := ih h
        exact ⟨hp, l, List.mem_cons_of_mem _ hl, heq⟩

end Pass

/-- **A pass keeps the tree.** Folding the tightest level of a chain does not change the tree of the chain. -/
theorem chainTree_pass {level : Nat} {first : Node} {links : Links} (h : ∀ link ∈ links, level ≤ levelOf link.1) :
    chainTree (passFrom (levelOf · == level) first links).1 (passFrom (levelOf · == level) first links).2 =
      chainTree first links := by
  induction hlen : links.length using Nat.strong_induction_on generalizing first links with
  | _ n ih =>
    by_cases hall : ∀ link ∈ links, levelOf link.1 = level
    · rw [passFrom_all (fun link hlink => by simpa using hall link hlink), chainTree_same_level hall, chainTree_nil]
    · have hne : links ≠ [] := by rintro rfl; simp at hall
      obtain ⟨before, op, operand, after, rfl, hbefore, hafter⟩ := exists_split hne
      obtain ⟨h1, h2⟩ := List.forall_mem_append.1 h
      obtain ⟨hop, h2⟩ := List.forall_mem_cons.1 h2
      -- the root is looser than the level that is folded, so the pass works on its two sides
      have hlt : level < levelOf op := by
        refine lt_of_le_of_ne hop fun heq => hall ?_
        refine List.forall_mem_append.2 ⟨fun l hl => ?_, List.forall_mem_cons.2 ⟨heq.symm, fun l hl => ?_⟩⟩
        · have := h1 l hl; have := hbefore l hl; omega
        · have := h2 l hl; have := hafter l hl; omega
      simp only [List.length_append, List.length_cons] at hlen
      rw [passFrom_append (by simpa using hlt.ne'), chainTree_split hbefore hafter, chainTree_split,
        ih before.length (by omega) h1 rfl, ih after.length (by omega) h2 rfl]
      · intro l hl
        obtain ⟨-, l', hl', heq⟩ := mem_passFrom hl
        rw [← heq]
        exact hbefore l' hl'
      · intro l hl
        obtain ⟨-, l', hl', heq⟩ := mem_passFrom hl
        rw [← heq]
        exact hafter l' hl'

/-! ## All passes -/

/-- the trees of a chain in a row, operators as placeholders -/
def Links.nodes (links : Links) : List Node := links.flatMap fun link => [.placeholder link.1, link.2]

theorem isLeafTag_of_mem {op : String} (h : op ∈ binaryOperators) : isLeafTag op = false := by
  have hall : ∀ op ∈ binaryOperators, isLeafTag op = false := by decide
  exact hall op h

theorem Node.isOperator_placeholder {operators : List String} {op : String} (h : op ∈ binaryOperators) :
    (placeholder op).isOperator operators = operators.contains op := by
  simp [isOperator, isPlaceholder, isLeaf, placeholder, value?, isLeafTag_of_mem h]

/-- a pass over the trees of a chain -/
theorem FoldsFrom.chain {operators : List String} {p : String → Bool} {left : Node} {links : Links}
    (hp : ∀ link ∈ links, p link.1 = operators.contains link.1) (hops : ∀ link ∈ links, link.1 ∈ binaryOperators)
    (hoperands : ∀ link ∈ links, link.2.isOperator operators = false) :
    FoldsFrom operators left links.nodes
      ((passFrom p left links).1 :: Links.nodes (passFrom p left links).2) := by
  induction links generalizing left with
  | nil => exact .done left
  | cons link links ih =>
    rcases link with ⟨op, operand⟩
    obtain ⟨hp, hps⟩ := List.forall_mem_cons.1 hp
    obtain ⟨hop, hops⟩ := List.forall_mem_cons.1 hops
    obtain ⟨hoperand, hoperands⟩ := List.forall_mem_cons.1 hoperands
    have hplaceholder : (Node.placeholder op).isOperator operators = p op := by
      rw [Node.isOperator_placeholder hop, hp]
    rw [passFrom]
    cases hfold : p op with
    | true =>
      rw [hfold] at hplaceholder
      exact .take hplaceholder (ih hps hops hoperands)
    | false =>
      rw [hfold] at hplaceholder
      exact .keep hplaceholder (.keep hoperand (ih hps hops hoperands))

/-- what operations keep and all operands have, the operands after a pass have -/
theorem passFrom_forall {P : Node → Prop} {p : String → Bool} {left : Node} {links : Links}
    (hP : ∀ op l r, P l → P r → P (.binary op l r)) (hleft : P left) (hlinks : ∀ link ∈ links, P link.2) :
    P (passFrom p left links).1 ∧ ∀ link ∈ (passFrom p left links).2, P link.2 := by
  induction links generalizing left with
  | nil => exact ⟨hleft, by simp [passFrom]⟩
  | cons link links ih =>
    rcases link with ⟨op, operand⟩
    obtain ⟨hoperand, hlinks⟩ := List.forall_mem_cons.1 hlinks
    rw [passFrom]
    split_ifs
    · exact ih (hP _ _ _ hleft hoperand) hlinks
    · obtain ⟨h1, h2⟩ := ih hoperand hlinks
      exact ⟨hleft, List.forall_mem_cons.2 ⟨h1, h2⟩⟩

/-- a tree that no pass takes for an operator -/
def Node.IsOperand (n : Node) : Prop := ∀ operators ∈ precedence, n.isOperator operators = false

/-- among operators that are not folded yet, those of the next level are told by their level -/
theorem levelOf_eq_length {done todo : List (List String)} {operators : List String} {op : String}
    (hsplit : precedence = done ++ operators :: todo) (hlevel : done.length ≤ levelOf op) :
    (levelOf op == done.length) = operators.contains op := by
  rw [levelOf, hsplit, List.findIdx_append] at hlevel ⊢
  split_ifs at hlevel ⊢ with hdone
  · omega
  · rw [List.findIdx_cons]
    cases operators.contains op <;> simp

theorem levelOf_lt {op : String} (h : op ∈ binaryOperators) : levelOf op < precedence.length := by
  obtain ⟨operators, hmem, hop⟩ := List.mem_flatten.1 h
  exact List.findIdx_lt_length_of_exists ⟨operators, hmem, by simpa using hop⟩

theorem folds_chain_from {done todo : List (List String)} {first : Node} {links : Links}
    (hsplit : precedence = done ++ todo) (hlevel : ∀ link ∈ links, done.length ≤ levelOf link.1)
    (hops : ∀ link ∈ links, link.1 ∈ binaryOperators) (hfirst : first.IsOperand)
    (hoperands : ∀ link ∈ links, link.2.IsOperand) :
    Folds todo (first :: links.nodes) [chainTree first links] := by
  induction todo generalizing done first links with
  | nil =>
    have hlinks : links = [] := by
      rw [List.eq_nil_iff_forall_not_mem]
      intro link hlink
      have := hlevel link hlink
      have := levelOf_lt (hops link hlink)
      simp only [hsplit, List.append_nil] at this
      omega
    subst hlinks
    rw [chainTree_nil]
    exact .nil [first]
  | cons operators todo ih =>
    have hmem : operators ∈ precedence := by simp [hsplit]
    obtain ⟨hfirst', hoperands'⟩ := passFrom_forall (p := (levelOf · == done.length))
      (fun _ _ _ _ _ _ _ => Node.isOperator_binary _ _ _ _) hfirst hoperands
    refine .cons (.cons (hfirst _ hmem) (FoldsFrom.chain (p := (levelOf · == done.length)) ?_ hops ?_)) ?_
    · exact fun link hlink => levelOf_eq_length hsplit (hlevel link hlink)
    · exact fun link hlink => hoperands link hlink _ hmem
    · have hsplit' : precedence = (done ++ [operators]) ++ todo := by simp [hsplit]
      rw [← chainTree_pass hlevel]
      refine ih hsplit' ?_ ?_ hfirst' hoperands'
      · intro link hlink
        obtain ⟨hne, l, hl, heq⟩ := mem_passFrom hlink
        have := hlevel l hl
        rw [heq] at this
        have : levelOf link.1 ≠ done.length := by simpa using hne
        simp only [List.length_append, List.length_singleton]
        omega
      · intro link hlink
        obtain ⟨-, l, hl, heq⟩ := mem_passFrom hlink
        rw [← heq]
        exact hops l hl

/-- **Folding a chain yields its tree**, for any operands and any mix of operators -/
theorem folds_chain {first : Node} {links : Links} (hops : ∀ link ∈ links, link.1 ∈ binaryOperators)
    (hfirst : first.IsOperand) (hoperands : ∀ link ∈ links, link.2.IsOperand) :
    Folds precedence (first :: links.nodes) [chainTree first links] :=
  folds_chain_from (List.nil_append _).symm (fun _ _ => Nat.zero_le _) hops hfirst hoperands

/-! ## Operands -/

/-- every parenthesis among the tokens has its partner among them -/
inductive Balanced : List Token → Prop where
  | nil : Balanced []
  | token {t : Token} {ts : List Token} (ho : t.isOperator "(" = false) (hc : t.isOperator ")" = false)
      (h : Balanced ts) : Balanced (t :: ts)
  | group {opener closer : Token} {inner ts : List Token} (ho : opener.isOperator "(" = true)
      (hc : closer.isOperator ")" = true) (hin : Balanced inner) (h : Balanced ts) :
      Balanced (opener :: (inner ++ closer :: ts))

/-- the tokens of one operand: a single literal, variable or reserved word that is no operator, a group, or a call -/
inductive OperandTokens : List Token → Prop where
  | single {t : Token} (h : t.kind = .number ∨ t.kind = .string ∨ t.kind = .ident ∨ t.kind = .param) :
      OperandTokens [t]
  | word {t : Token} (hk : t.kind = .keyword) (h : t.text ∉ binaryOperators) : OperandTokens [t]
  | group {opener closer : Token} {inner : List Token} (ho : opener.isOperator "(" = true)
      (hc : closer.isOperator ")" = true) (hin : Balanced inner) : OperandTokens (opener :: (inner ++ [closer]))
  | call {name opener closer : Token} {inner : List Token} (hname : name.isFunction = true)
      (ho : opener.isOperator "(" = true) (hc : closer.isOperator ")" = true) (hin : Balanced inner) :
      OperandTokens (name :: opener :: (inner ++ [closer]))

/-- balanced tokens leave the breaks of what follows them alone -/
theorem Balanced.breaks {ts : List Token} (h : Balanced ts) (tail : List Token) :
    (Outline.of (ts ++ tail)).breaks = (Outline.of tail).breaks := by
  induction h generalizing tail with
  | nil => rfl
  | token ho hc _ ih =>
    rw [List.cons_append, Outline.of_other ho hc, ← ih tail, Outline.pushToken]
    split <;> rfl
  | @group _ closer _ ts ho hc _ _ ihin ih =>
    have hinner := ihin (closer :: (ts ++ tail))
    rw [Outline.of_closer hc] at hinner
    rw [List.cons_append, Outline.of_opener ho, List.append_assoc, List.cons_append, Outline.openGroup, hinner]
    exact ih tail

/-- what can be read is balanced -/
theorem Derives.balanced {vars : List Variable} {d : Nat} {ts : List Token} {ns : List Node} (h : Derives vars d ts ns) :
    Balanced ts := by
  induction h with
  | nil d => exact .nil
  | comma ht _ ih =>
    refine .token ?_ ?_ ih
    · rw [Token.isOperator_of_isOperator ht]; decide
    · rw [Token.isOperator_of_isOperator ht]; decide
  | token ht _ _ ih =>
    simp only [Token.isPunctuation, Bool.or_eq_false_iff] at ht
    exact .token ht.1.1 ht.1.2 ih
  | group ho hc _ _ _ ihin ih => exact .group ho hc ihin ih
  | call hname ho hc _ _ _ ihin ih =>
    exact .token (Token.isOperator_of_isFunction hname _) (Token.isOperator_of_isFunction hname _) (.group ho hc ihin ih)

/-- a parenthesis has one partner only -/
theorem Derives.closer_unique {vars : List Variable} {d : Nat} {inner inner' ts : List Token} {ns : List Node}
    {closer closer' : Token} (h : Derives vars d inner ns) (hbal : Balanced inner')
    (hc : closer.isOperator ")" = true) (hc' : closer'.isOperator ")" = true)
    (heq : inner ++ closer :: ts = inner' ++ [closer']) : inner = inner' ∧ closer = closer' ∧ ts = [] := by
  have hbreaks : (Outline.of (closer :: ts)).breaks = (Outline.of [closer']).breaks := by
    rw [← h.balanced.breaks, heq, hbal.breaks]
  rw [Outline.of_closer hc, Outline.of_closer hc'] at hbreaks
  simp only [List.cons.injEq, Break.mk.injEq] at hbreaks
  obtain ⟨⟨rfl, rfl, -⟩, -⟩ := hbreaks
  exact ⟨List.append_cancel_right heq, rfl, rfl⟩

theorem Folds.unique {levels : List (List String)} {nodes out out' : List Node} (h : Folds levels nodes out)
    (h' : Folds levels nodes out') : out = out' := by
  have hout : Node.Within (Node.mostLevels out + Node.mostLevels out') out :=
    Node.mostLevels_le_iff.1 (Nat.le_add_right _ _)
  have hout' : Node.Within (Node.mostLevels out + Node.mostLevels out') out' :=
    Node.mostLevels_le_iff.1 (Nat.le_add_left _ _)
  have heq : out.map Entry.ofNode = out'.map Entry.ofNode := Except.ok.inj ((h.outcome hout).symm.trans (h'.outcome hout'))
  have hinj : Function.Injective Entry.ofNode := fun a b hab => congrArg Entry.node hab
  exact List.map_injective_iff.2 hinj heq

theorem Node.isOperand_leaf (kind : LeafKind) (text : String) : (leaf kind text).IsOperand := by
  intro operators _
  cases kind <;> simp [isOperator, isPlaceholder, isLeaf, isLeafTag, leaf, LeafKind.tag, LeafKind.ofTag?]

theorem Node.isOperand_placeholder {text : String} (h : text ∉ binaryOperators) : (placeholder text).IsOperand := by
  intro operators hmem
  have hnot : operators.contains text = false := by
    rw [← Bool.not_eq_true, List.contains_iff_mem]
    exact fun hop => h (mem_binaryOperators hmem hop)
  rw [isOperator, show (placeholder text).tag = text from rfl, hnot, Bool.and_false]

theorem Node.isOperand_call (name : String) (args : List Node) : (call name args).IsOperand :=
  fun operators _ => isOperator_call operators name args

theorem Folds.isOperand {nodes out : List Node} (h : Folds precedence nodes out) : ∀ n ∈ out, n.IsOperand :=
  fun n hn operators hmem => h.no_operator operators hmem n hn

theorem Derives.nodes_nil {vars : List Variable} {d : Nat} {ns : List Node} (h : Derives vars d [] ns) : ns = [] := by
  cases h
  rfl

theorem Derives.of_single {vars : List Variable} {d : Nat} {t : Token} {ns : List Node} (h : Derives vars d [t] ns)
    (ht : t.kind ≠ .operator) : ∃ n, ns = [n] ∧ Scope.tokenNode { vars } t = .ok n := by
  generalize hts : [t] = ts at h
  cases h with
  | nil => simp at hts
  | comma hcomma _ =>
    obtain ⟨rfl, rfl⟩ := List.cons.inj hts
    simp only [Token.isOperator, Bool.and_eq_true, beq_iff_eq] at hcomma
    exact absurd hcomma.1 ht
  | token _ hn h =>
    obtain ⟨rfl, rfl⟩ := List.cons.inj hts
    rw [h.nodes_nil]
    exact ⟨_, rfl, hn⟩
  | group => simp at hts
  | call => simp at hts

/-- a group by itself derives what its contents fold to -/
theorem Derives.of_group {vars : List Variable} {d : Nat} {opener closer : Token} {inner : List Token} {ns : List Node}
    (h : Derives vars d (opener :: (inner ++ [closer])) ns) (ho : opener.isOperator "(" = true)
    (hc : closer.isOperator ")" = true) (hin : Balanced inner) : ∃ mid, Folds precedence mid ns := by
  generalize hts : opener :: (inner ++ [closer]) = ts at h
  cases h with
  | nil => simp at hts
  | comma hcomma _ =>
    obtain ⟨rfl, -⟩ := List.cons.inj hts
    simp [Token.isOperator_of_isOperator ho] at hcomma
  | token hplain _ _ =>
    obtain ⟨rfl, -⟩ := List.cons.inj hts
    simp [Token.isPunctuation, ho] at hplain
  | group _ hc' hder hf hrest =>
    obtain ⟨-, heq⟩ := List.cons.inj hts
    obtain ⟨-, -, rfl⟩ := hder.closer_unique hin hc' hc heq.symm
    rw [hrest.nodes_nil, List.append_nil]
    exact ⟨_, hf⟩
  | call hname _ _ _ _ _ =>
    obtain ⟨rfl, -⟩ := List.cons.inj hts
    simp [Token.isOperator_of_isFunction hname] at ho

/-- a call by itself derives one tree -/
theorem Derives.of_call {vars : List Variable} {d : Nat} {name opener closer : Token} {inner : List Token}
    {ns : List Node} (h : Derives vars d (name :: opener :: (inner ++ [closer])) ns) (hname : name.isFunction = true)
    (hc : closer.isOperator ")" = true) (hin : Balanced inner) : ∃ args, ns = [.call name.text args] := by
  generalize hts : name :: opener :: (inner ++ [closer]) = ts at h
  cases h with
  | nil => simp at hts
  | comma hcomma _ =>
    obtain ⟨rfl, -⟩ := List.cons.inj hts
    simp [Token.isOperator_of_isFunction hname] at hcomma
  | token _ hn _ =>
    obtain ⟨rfl, -⟩ := List.cons.inj hts
    simp [Scope.isFunction_tokenNode hn] at hname
  | group ho _ _ _ _ =>
    obtain ⟨rfl, -⟩ := List.cons.inj hts
    simp [Token.isOperator_of_isFunction hname] at ho
  | call _ _ hc' hder _ hrest =>
    obtain ⟨rfl, heq⟩ := List.cons.inj hts
    obtain ⟨-, -, rfl⟩ := hder.closer_unique hin hc' hc (List.cons.inj heq).2.symm
    rw [hrest.nodes_nil]
    exact ⟨_, rfl⟩

theorem Node.IsOperand.folds {n : Node} (h : n.IsOperand) : Folds precedence [n] [n] :=
  .of_no_operator fun operators hmem => List.forall_mem_singleton.2 (h operators hmem)

/-- **An operand reads as one tree**, which no pass takes for an operator -/
theorem OperandTokens.derives {vars : List Variable} {limit : Nat} {ts : List Token} {a : Node} (hts : OperandTokens ts)
    (h : Scope.parse ⟨vars, limit⟩ ts = .ok a) : Derives vars limit ts [a] ∧ a.IsOperand := by
  obtain ⟨-, ns, hder, hfolds⟩ := parse_eq_ok_iff.1 h
  -- it is enough that the tokens derive what is folded already
  suffices hns : Folds precedence ns ns by
    rw [hns.unique hfolds] at hder
    exact ⟨hder, hfolds.isOperand a List.mem_cons_self⟩
  cases hts with
  | single hk =>
    obtain ⟨n, rfl, hn⟩ := hder.of_single (by rcases hk with hk | hk | hk | hk <;> simp [hk])
    rcases Scope.tokenNode_ok hn with ⟨kind, text, rfl, -⟩ | ⟨hk', -⟩
    · exact (Node.isOperand_leaf kind text).folds
    · rcases hk with hk | hk | hk | hk <;> simp [hk] at hk'
  | word hk htext =>
    obtain ⟨n, rfl, hn⟩ := hder.of_single (by simp [hk])
    rcases Scope.tokenNode_ok hn with ⟨kind, text, rfl, -⟩ | ⟨-, rfl⟩
    · exact (Node.isOperand_leaf kind text).folds
    · exact (Node.isOperand_placeholder htext).folds
  | group ho hc hin =>
    obtain ⟨mid, hmid⟩ := hder.of_group ho hc hin
    exact .of_no_operator hmid.no_operator
  | call hname _ hc hin =>
    obtain ⟨args, rfl⟩ := hder.of_call hname hc hin
    exact (Node.isOperand_call _ args).folds

/-! ## Chains of operands -/

/-- an operand of a chain: its tokens, and the tree that they parse to by themselves under some limit -/
structure Segment (vars : List Variable) where
  tokens : List Token
  tree : Node
  limit : Nat
  operand : OperandTokens tokens
  parsed : Scope.parse ⟨vars, limit⟩ tokens = .ok tree

/-- an operator that is folded -/
def Token.IsBinary (t : Token) : Prop := t.kind = .operator ∧ t.text ∈ binaryOperators

instance (t : Token) : Decidable t.IsBinary := inferInstanceAs (Decidable (_ ∧ _))

/-- the chain of trees behind operators and operands -/
def linksOf {vars : List Variable} (links : List (Token × Segment vars)) : Links :=
  links.map fun link => (link.1.text, link.2.tree)

theorem Token.IsBinary.derives {vars : List Variable} {d : Nat} {t : Token} (h : t.IsBinary) :
    Derives vars d [t] [.placeholder t.text] := by
  refine .token ?_ ?_ (.nil d)
  · have hall : ∀ op ∈ binaryOperators, (op == "(" || op == ")" || op == ",") = false := by decide
    simpa [isPunctuation, isOperator, h.1] using hall t.text h.2
  · simp [Scope.tokenNode, h.1]

theorem derives_links {vars : List Variable} {limit : Nat} {links : List (Token × Segment vars)}
    (hops : ∀ link ∈ links, link.1.IsBinary) (hlimit : ∀ link ∈ links, link.2.limit ≤ limit) :
    Derives vars limit (links.flatMap fun link => link.1 :: link.2.tokens) (linksOf links).nodes := by
  induction links with
  | nil => exact .nil limit
  | cons link links ih =>
    obtain ⟨hop, hops⟩ := List.forall_mem_cons.1 hops
    obtain ⟨hle, hlimit⟩ := List.forall_mem_cons.1 hlimit
    obtain ⟨hder, -⟩ := link.2.operand.derives link.2.parsed
    exact (hop.derives.append (hder.mono hle)).append (ih hops hlimit)

/-- **Precedence and associativity.** Operands of any form joined by any operators parse to the tree of the chain, under
every limit that each operand and the tree itself stay within. -/
theorem parse_chain {vars : List Variable} (first : Segment vars) (links : List (Token × Segment vars)) (limit : Nat)
    (hops : ∀ link ∈ links, link.1.IsBinary) (hfirst : first.limit ≤ limit)
    (hlinks : ∀ link ∈ links, link.2.limit ≤ limit) (hlevels : (chainTree first.tree (linksOf links)).levels ≤ limit) :
    Scope.parse ⟨vars, limit⟩ (first.tokens ++ links.flatMap fun link => link.1 :: link.2.tokens) =
      .ok (chainTree first.tree (linksOf links)) := by
  obtain ⟨hder, hoperand⟩ := first.operand.derives first.parsed
  refine parse_eq_ok_iff.2 ⟨hlevels, _, (hder.mono hfirst).append (derives_links hops hlinks), ?_⟩
  refine folds_chain ?_ hoperand ?_
  · simp only [linksOf, List.forall_mem_map]
    exact fun link hlink => (hops link hlink).2
  · simp only [linksOf, List.forall_mem_map]
    exact fun link _ => (link.2.operand.derives link.2.parsed).2

/-- the operand `8` of the chain `8 - 5 - ABS(1) * (2 + 3) OR NULL` -/
def mixedFirst : Segment [] :=
  ⟨[⟨.number, "8", .start⟩], .number "8.000000", 0, .single (.inl rfl), by decide +kernel⟩

/-- the operators and the other operands of this chain -/
def mixedLinks : List (Token × Segment []) :=
  [(⟨.operator, "-", .start⟩, ⟨[⟨.number, "5", .start⟩], .number "5.000000", 0, .single (.inl rfl), by decide +kernel⟩),
    (⟨.operator, "-", .start⟩,
      ⟨⟨.ident, "ABS", .start⟩ :: ⟨.operator, "(", .start⟩ :: ([⟨.number, "1", .start⟩] ++ [⟨.operator, ")", .start⟩]),
        .call "ABS" [.number "1.000000"], 1, .call (by decide) rfl rfl (.token rfl rfl .nil), by decide +kernel⟩),
    (⟨.operator, "*", .start⟩,
      ⟨⟨.operator, "(", .start⟩ :: ([⟨.number, "2", .start⟩, ⟨.operator, "+", .start⟩, ⟨.number, "3", .start⟩] ++
          [⟨.operator, ")", .start⟩]), .binary "+" (.number "2.000000") (.number "3.000000"), 1,
        .group rfl rfl (.token rfl rfl (.token rfl rfl (.token rfl rfl .nil))), by decide +kernel⟩),
    (⟨.operator, "OR", .start⟩, ⟨[⟨.keyword, "NULL", .start⟩], .null, 0, .word rfl (by decide), by decide +kernel⟩)]

theorem parse_chain_mixed :
    Scope.parse ⟨[], 4⟩ (mixedFirst.tokens ++ mixedLinks.flatMap fun link => link.1 :: link.2.tokens) =
      .ok (.binary "OR"
        (.binary "-" (.binary "-" (.number "8.000000") (.number "5.000000"))
          (.binary "*" (.call "ABS" [.number "1.000000"]) (.binary "+" (.number "2.000000") (.number "3.000000"))))
        .null) := by
  have h := parse_chain mixedFirst mixedLinks 4 (by decide) (by decide) (by decide) (by decide +kernel)
  have htree : chainTree mixedFirst.tree (linksOf mixedLinks) = .binary "OR"
      (.binary "-" (.binary "-" (.number "8.000000") (.number "5.000000"))
        (.binary "*" (.call "ABS" [.number "1.000000"]) (.binary "+" (.number "2.000000") (.number "3.000000"))))
      .null := by decide +kernel
  exact htree ▸ h

end Formula
