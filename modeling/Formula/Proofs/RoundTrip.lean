/-
Printing a tree and reading it back.

A tree is printed with a parenthesis around every operation and a space between any two tokens. The printed tokens of a
tree that can be written down (`Node.Printable`: canonical numbers, strings without a quote, reserved words that are no
operators, operations and calls) are lexemes of their own (`Printable.spelled`), and a group or call is one operand for
whatever surrounds it (`Printable.derives`).

`tree_print`: the printed text reads as the tree, under every limit that covers its levels.
-/
import Mathlib.Tactic
import Formula.Proofs.CanonicalText
import Formula.Proofs.Frontier
import Formula.Proofs.Joined
import Formula.Proofs.Lexemes

namespace Formula

/-! ## Printing -/

/-- an operator or punctuation mark, at no particular place -/
def operatorToken (symbol : String) : Token := ⟨.operator, symbol, .start⟩

/-- the token of a leaf or placeholder -/
def leafToken (tag text : String) : Token :=
  match LeafKind.ofTag? tag with
  | some .number => ⟨.number, text, .start⟩
  | some .string => ⟨.string, text, .start⟩
  | some .null | none => ⟨.keyword, text, .start⟩

def parenthesized (ts : List Token) : List Token := operatorToken "(" :: (ts ++ [operatorToken ")"])

/-- an operation from the tokens of its operands, or a call from those of its arguments -/
def joinTokens (tag : String) (parts : List (List Token)) : List Token :=
  if tag ∈ binaryOperators then parenthesized ([operatorToken tag].intercalate parts)
  else ⟨.ident, tag, .start⟩ :: parenthesized ([operatorToken ","].intercalate parts)

/-- the tokens of a tree: `( L op R )` for an operation, `F ( A , ... , B )` for a call -/
def Node.tokens : Node → List Token := Node.bottomUp (fun tag text => [leafToken tag text]) joinTokens

/-- a tree as text, with a space between any two tokens -/
def Node.print (t : Node) : String := spaced t.tokens

namespace Node

theorem tokens_value (tag text : String) : tokens ⟨tag, [.value text]⟩ = [leafToken tag text] := bottomUp_value _ _

theorem tokens_binary {op : String} (h : op ∈ binaryOperators) (left right : Node) :
    (binary op left right).tokens = parenthesized (left.tokens ++ operatorToken op :: right.tokens) := by
  rw [tokens, bottomUp_binary]
  simp [joinTokens, h, List.intercalate]

theorem tokens_call {name : String} (h : name ∉ binaryOperators) (args : List Node) :
    (call name args).tokens =
      ⟨.ident, name, .start⟩ :: parenthesized ([operatorToken ","].intercalate (args.map tokens)) := by
  rw [tokens, bottomUp_call, joinTokens, if_neg h]

/-- trees that can be written down -/
inductive Printable : Node → Prop where
  | number {text canonical : String} (h : canonicalize text = some canonical) : Printable (.number canonical)
  | string {text : String} (h : Lexer.quoteMark ∉ text.toList) : Printable (.string text)
  | null : Printable .null
  | word {text : String} (h : text ∈ reservedWords) (hword : text ∉ ["AND", "OR", "NOT", "NULL"]) :
      Printable (.placeholder text)
  | binary {op : String} {left right : Node} (h : op ∈ binaryOperators) (hleft : Printable left)
      (hright : Printable right) : Printable (.binary op left right)
  | call {name : String} {args : List Node} (h : isFunctionName name = true) (hargs : ∀ n ∈ args, Printable n) :
      Printable (.call name args)

end Node

/-! ## Lexemes -/

namespace Lexer

theorem tableWidth_eq_zero {table : List String} {p : Char → Bool} {c : Char} (hc : p c = true)
    (htable : table.all (fun word => word.toList.head?.any (!p ·)) = true) (cs : List Char) :
    tableWidth table (c :: cs) = 0 := by
  induction table with
  | nil => rfl
  | cons word table ih =>
    obtain ⟨hword, htable⟩ := Bool.and_eq_true_iff.1 (List.all_cons ▸ htable)
    have hprefix : word.toList.isPrefixOf (c :: cs) = false := by
      cases hchars : word.toList with
      | nil => simp [hchars] at hword
      | cons d ds =>
        have hne : (d == c) = false := by
          rw [beq_eq_false_iff_ne]
          rintro rfl
          simp [hchars, hc] at hword
        simp [List.isPrefixOf, hne]
    simp only [tableWidth, List.foldr_cons, hprefix, Bool.false_eq_true, if_false]
    exact ih htable

/-- of the rules listed before that for numbers, none matches more than the sign in front of a digit -/
theorem width_before_digit {c : Char} (hdigit : c.isDigit = true) (negative : Bool) (cs : List Char) :
    ∀ rule ∈ rules.take 5, rule.width (signText negative ++ c :: cs) ≤ (signText negative).length := by
  have hsymbols : symbols.all (fun word => word.toList.head?.any (!·.isDigit)) = true := by decide +kernel
  have hreserved : reservedWords.all (fun word => word.toList.head?.any (!·.isDigit)) = true := by decide +kernel
  have hminus : c ≠ '-' := ne_of_isDigit hdigit rfl
  have hslash : c ≠ '/' := ne_of_isDigit hdigit rfl
  have hmark : c ≠ '$' := ne_of_isDigit hdigit rfl
  have hquote : c ≠ quoteMark := ne_of_isDigit hdigit rfl
  intro rule hrule
  simp only [rules, List.take_succ_cons, List.take_zero, List.mem_cons, List.not_mem_nil, or_false] at hrule
  cases negative with
  | true =>
    change rule.width ('-' :: c :: cs) ≤ 1
    rcases hrule with rfl | rfl | rfl | rfl | rfl
    · exact le_of_eq rfl
    · exact Nat.zero_le _
    · simp [commentWidth, hminus]
    · exact Nat.zero_le _
    · exact Nat.zero_le _
  | false =>
    change rule.width (c :: cs) ≤ 0
    rcases hrule with rfl | rfl | rfl | rfl | rfl
    · simp [tableWidth_eq_zero hdigit hsymbols cs]
    · simp [tableWidth_eq_zero hdigit hreserved cs]
    · simp [commentWidth, hminus, hslash]
    · simp [paramWidth, runLength, hmark]
    · simp [quoteWidth, hquote]

theorem commentWidth_eq_zero {cs : List Char} (h : commentWidth cs ≤ 1) : commentWidth cs = 0 := by
  unfold commentWidth at h ⊢
  split at h
  · omega
  · omega
  · rfl

/-- a numeral is a sign in front of an unsigned number -/
theorem IsNumeral.exists_unsigned {w : List Char} (h : IsNumeral w) :
    ∃ negative v, w = signText negative ++ v ∧ IsUnsigned v := by
  cases h with
  | unsigned h => exact ⟨false, w, rfl, h⟩
  | @negative v h => exact ⟨true, v, rfl, h⟩

/-- no blank stands at the front of a numeral -/
theorem IsNumeral.runLength_isBlank {w : List Char} (h : IsNumeral w) (rest : List Char) :
    runLength isBlank (w ++ rest) = 0 := by
  obtain ⟨negative, v, rfl, hv⟩ := h.exists_unsigned
  obtain ⟨c, cs, rfl, hdigit⟩ := hv.exists_digit
  have hblank : isBlank c = false := by
    by_contra hblank
    have hdigits : Unblanked Char.isDigit := rfl
    rw [hdigits.eq_false (Bool.not_eq_false _ ▸ hblank)] at hdigit
    cases hdigit
  cases negative with
  | true => rfl
  | false => exact runLength_of_head hblank _

/-- a numeral is read as a number where neither a number nor a word goes on behind it -/
theorem front?_numeral {w rest : List Char} (h : IsNumeral w) (hnumber : numberWidth (w ++ rest) = w.length)
    (hword : runLength isWordChar (w ++ rest) ≤ w.length) : front? (w ++ rest) = some (.token .number, w.length) := by
  have hblank := h.runLength_isBlank rest
  obtain ⟨negative, v, rfl, hv⟩ := h.exists_unsigned
  obtain ⟨c, cs, rfl, hdigit⟩ := hv.exists_digit
  have hassoc : signText negative ++ c :: cs ++ rest = signText negative ++ c :: (cs ++ rest) := by simp
  have hbefore := width_before_digit hdigit negative (cs ++ rest)
  have hlength : (signText negative).length < (signText negative ++ c :: cs).length := by simp
  have hsplit : rules = rules.take 5 ++ ⟨.token .number, numberWidth⟩ ::
      [⟨.token .ident, runLength isWordChar⟩, ⟨.blank, runLength isBlank⟩] := rfl
  rw [front?, hsplit, longest_eq_some]
  · simp only [hnumber]
  · simp only [hnumber]
    omega
  · intro rule hrule
    simp only [hnumber]
    rw [hassoc]
    exact (hbefore rule hrule).trans_lt hlength
  · intro rule hrule
    simp only [hnumber]
    simp only [List.mem_cons, List.not_mem_nil, or_false] at hrule
    rcases hrule with rfl | rfl
    · exact hword
    · simp only [hblank]
      exact Nat.zero_le _

/-- **A numeral is one number** -/
theorem spells_numeral {w : List Char} (h : IsNumeral w) : Spells .number w := by
  have hnumber : numberWidth (w ++ []) = w.length := by
    rw [List.append_nil]
    exact measures_numberWidth.eq_length h
  have hword : runLength isWordChar (w ++ []) ≤ w.length := by
    rw [List.append_nil]
    exact runLength_le _ _
  have hfront := front?_numeral h hnumber hword
  have hblank := h.runLength_isBlank []
  rw [List.append_nil] at hfront hblank
  refine ⟨hfront, hblank, ?_⟩
  obtain ⟨negative, v, rfl, hv⟩ := h.exists_unsigned
  obtain ⟨c, cs, rfl, hdigit⟩ := hv.exists_digit
  have hcomment := width_before_digit hdigit negative cs ⟨.blank, commentWidth⟩ (by simp [rules])
  have hsign : (signText negative).length ≤ 1 := by cases negative <;> decide
  exact commentWidth_eq_zero (hcomment.trans hsign)

end Lexer

open Lexer

/-! ## Printed tokens -/

theorem spells_symbol {symbol : String} (h : symbol ∈ symbols) : Spells .operator symbol.toList := by
  have hall : ∀ symbol ∈ symbols, Spells .operator symbol.toList := by decide +kernel
  exact hall symbol h

theorem leafToken_reservedWord {word : String} (h : word ∈ reservedWords) :
    leafToken word word = ⟨.keyword, word, .start⟩ := by
  have hall : ∀ word ∈ reservedWords, leafToken word word = ⟨.keyword, word, .start⟩ := by decide +kernel
  exact hall word h

/-- reserved words that are no symbols -/
theorem not_mem_symbols {word : String} (h : word ∈ reservedWords) (hword : word ∉ ["AND", "OR", "NOT", "NULL"]) :
    word ∉ symbols := by
  have hall : ∀ word ∈ reservedWords, word ∉ ["AND", "OR", "NOT", "NULL"] → word ∉ symbols := by decide +kernel
  exact hall word h hword

theorem spells_reservedWord {word : String} (h : word ∈ reservedWords) (hsymbol : word ∉ symbols) :
    Spells .keyword word.toList := by
  have hall : ∀ word ∈ reservedWords, word ∉ symbols → Spells .keyword word.toList := by decide +kernel
  exact hall word h hsymbol

theorem spells_functionName {name : String} (h : isFunctionName name = true) : Spells .ident name.toList := by
  have hall : ∀ name ∈ functionNames, Spells .ident name.toList := by decide +kernel
  exact hall name (List.contains_iff_mem.1 h)

theorem spells_canonical {text canonical : String} (h : canonicalize text = some canonical) :
    Spells .number canonical.toList := by
  obtain ⟨negative, cs, whole, fraction, hcanonical, hshape⟩ := canonicalize_shape h
  have hfraction : fraction ≠ [] := List.length_pos_iff.1 (by rw [hshape.length_fraction]; decide)
  have hunsigned : IsUnsigned cs := by
    rw [hshape.eq]
    exact .fraction ⟨hshape.whole_ne, hshape.digits_whole⟩ (.intro ⟨hfraction, hshape.digits_fraction⟩)
  rw [hcanonical]
  apply spells_numeral
  cases negative with
  | true => exact .negative hunsigned
  | false => exact .unsigned hunsigned

theorem spelled_parenthesized {ts : List Token} (h : ∀ t ∈ ts, t.Spelled) : ∀ t ∈ parenthesized ts, t.Spelled := by
  have hopener : (operatorToken "(").Spelled := spells_symbol (by decide)
  have hcloser : (operatorToken ")").Spelled := spells_symbol (by decide)
  intro t ht
  simp only [parenthesized, List.mem_cons, List.mem_append, List.not_mem_nil, or_false] at ht
  rcases ht with rfl | ht | rfl
  · exact hopener
  · exact h t ht
  · exact hcloser

/-- every printed token is a lexeme of its own -/
theorem Node.Printable.spelled {t : Node} (h : t.Printable) : ∀ u ∈ t.tokens, u.Spelled := by
  induction h with
  | number h =>
    intro u hu
    rw [Node.number, Node.leaf, Node.tokens_value, List.mem_singleton] at hu
    subst hu
    exact spells_canonical h
  | string h =>
    intro u hu
    rw [Node.string, Node.leaf, Node.tokens_value, List.mem_singleton] at hu
    subst hu
    exact h
  | null =>
    intro u hu
    rw [Node.null, Node.leaf, Node.tokens_value, List.mem_singleton] at hu
    subst hu
    have hnull : Spells .keyword "NULL".toList := spells_reservedWord (by decide) (by decide)
    exact hnull
  | word h hword =>
    intro u hu
    rw [Node.placeholder, Node.tokens_value, leafToken_reservedWord h, List.mem_singleton] at hu
    subst hu
    exact spells_reservedWord h (not_mem_symbols h hword)
  | @binary op left right h _ _ ihleft ihright =>
    have hop : (operatorToken op).Spelled := spells_symbol (mem_symbols h)
    rw [Node.tokens_binary h]
    apply spelled_parenthesized
    intro u hu
    rcases List.mem_append.1 hu with hu | hu
    · exact ihleft u hu
    · rcases List.mem_cons.1 hu with rfl | hu
      · exact hop
      · exact ihright u hu
  | @call name args h _ ih =>
    have hname : Token.Spelled ⟨.ident, name, .start⟩ := spells_functionName h
    have hcomma : (operatorToken ",").Spelled := spells_symbol (by decide)
    rw [Node.tokens_call (not_mem_binaryOperators h)]
    refine List.forall_mem_cons.2 ⟨hname, spelled_parenthesized ?_⟩
    intro u hu
    rcases mem_intercalate hu with hu | ⟨part, hpart, hu⟩
    · obtain rfl := List.mem_singleton.1 hu
      exact hcomma
    · obtain ⟨n, hn, rfl⟩ := List.mem_map.1 hpart
      exact ih n hn u hu

/-! ## Reading back -/

theorem exists_cons_of_lexemes {t : Token} {ts us : List Token}
    (h : us.map Token.lexeme = (t :: ts).map Token.lexeme) :
    ∃ p rest, us = ⟨t.kind, t.text, p⟩ :: rest ∧ rest.map Token.lexeme = ts.map Token.lexeme := by
  obtain ⟨u, rest, rfl, hu, hrest⟩ := List.map_eq_cons_iff.1 h
  obtain ⟨hkind, htext⟩ := Prod.mk.inj hu
  exact ⟨u.position, rest, by rw [← hkind, ← htext], hrest⟩

theorem Scope.numberLeaf_move {text : String} {p : Position} {n : Node} (h : numberLeaf text p = .ok n) (q : Position) :
    numberLeaf text q = .ok n := by
  unfold numberLeaf at h ⊢
  cases hcanonical : canonicalize text with
  | none => simp [hcanonical] at h
  | some canonical => simpa [hcanonical] using h

theorem Scope.variableLeaf_move {s : Scope} {t : Token} {n : Node} (h : s.variableLeaf t = .ok n) (q : Position) :
    s.variableLeaf ⟨t.kind, t.text, q⟩ = .ok n := by
  unfold variableLeaf at h ⊢
  cases hfind : s.find? t.text with
  | none => simp [hfind] at h
  | some v =>
    simp only [hfind] at h ⊢
    cases hkind : v.kind with
    | number =>
      rw [hkind] at h
      exact numberLeaf_move h q
    | string =>
      rw [hkind] at h
      exact h
    | null =>
      rw [hkind] at h
      exact h

theorem Scope.tokenNode_move {s : Scope} {t : Token} {n : Node} (h : s.tokenNode t = .ok n) (q : Position) :
    s.tokenNode ⟨t.kind, t.text, q⟩ = .ok n := by
  obtain ⟨kind, text, p⟩ := t
  cases kind with
  | ident =>
    simp only [tokenNode] at h ⊢
    split_ifs at h ⊢
    exact variableLeaf_move h q
  | param => exact variableLeaf_move h q
  | number => exact numberLeaf_move h q
  | string => exact h
  | operator => exact h
  | keyword => exact h

/-- positions do not matter for derivations -/
theorem Derives.congr {vars : List Variable} {depth : Nat} {ts us : List Token} {ns : List Node}
    (h : Derives vars depth ts ns) (hus : us.map Token.lexeme = ts.map Token.lexeme) : Derives vars depth us ns := by
  induction h generalizing us with
  | nil depth =>
    obtain rfl := List.map_eq_nil_iff.1 hus
    exact .nil depth
  | comma ht _ ih =>
    obtain ⟨p, rest, rfl, hrest⟩ := exists_cons_of_lexemes hus
    exact .comma ht (ih hrest)
  | token ht hn _ ih =>
    obtain ⟨p, rest, rfl, hrest⟩ := exists_cons_of_lexemes hus
    exact .token ht (Scope.tokenNode_move hn p) (ih hrest)
  | group ho hc _ hf _ ihin ih =>
    obtain ⟨p, tail, rfl, htail⟩ := exists_cons_of_lexemes hus
    obtain ⟨inner, tail, rfl, hinner, hcloser⟩ := List.map_eq_append_iff.1 (htail.trans List.map_append)
    obtain ⟨q, rest, rfl, hrest⟩ := exists_cons_of_lexemes hcloser
    exact .group ho hc (ihin hinner) hf (ih hrest)
  | call hname ho hc _ hf _ ihin ih =>
    obtain ⟨r, tail, rfl, hopener⟩ := exists_cons_of_lexemes hus
    obtain ⟨p, tail, rfl, htail⟩ := exists_cons_of_lexemes hopener
    obtain ⟨inner, tail, rfl, hinner, hcloser⟩ := List.map_eq_append_iff.1 (htail.trans List.map_append)
    obtain ⟨q, rest, rfl, hrest⟩ := exists_cons_of_lexemes hcloser
    exact .call hname ho hc (ihin hinner) hf (ih hrest)

theorem derives_parenthesized {depth : Nat} {ts : List Token} {mid : List Node} {n : Node}
    (h : Derives [] depth ts mid) (hf : Folds precedence mid [n]) : Derives [] (depth + 1) (parenthesized ts) [n] :=
  .group rfl rfl h hf (.nil _)

theorem derives_arguments {depth : Nat} {args : List Node} (h : ∀ n ∈ args, Derives [] depth n.tokens [n]) :
    Derives [] depth ([operatorToken ","].intercalate (args.map Node.tokens)) args := by
  induction args with
  | nil => exact .nil depth
  | cons n args ih =>
    obtain ⟨hn, hargs⟩ := List.forall_mem_cons.1 h
    cases args with
    | nil => simpa [List.intercalate_singleton] using hn
    | cons m args =>
      have hcomma : Derives [] depth (operatorToken "," :: [operatorToken ","].intercalate ((m :: args).map Node.tokens))
          (m :: args) := .comma rfl (ih hargs)
      rw [List.map_cons, List.map_cons, List.intercalate_cons_cons, List.append_assoc]
      exact hn.append hcomma

theorem folds_binary {op : String} {left right : Node} (hop : op ∈ binaryOperators) (hleft : left.IsOperand)
    (hright : right.IsOperand) : Folds precedence [left, .placeholder op, right] [.binary op left right] := by
  have hlevel : ∀ link ∈ [(op, right)], levelOf link.1 = levelOf op := by simp
  have hchain : chainTree left [(op, right)] = .binary op left right := chainTree_same_level hlevel
  have hops : ∀ link ∈ [(op, right)], link.1 ∈ binaryOperators := by simpa using hop
  have hfolds := folds_chain hops hleft (by simpa using hright)
  rwa [hchain] at hfolds

theorem Node.Printable.isOperand {t : Node} (h : t.Printable) : t.IsOperand := by
  cases h with
  | number h => exact Node.isOperand_leaf _ _
  | string h => exact Node.isOperand_leaf _ _
  | null => exact Node.isOperand_leaf _ _
  | word h hword => exact Node.isOperand_placeholder fun hop => not_mem_symbols h hword (mem_symbols hop)
  | binary h hleft hright => exact fun operators _ => Node.isOperator_binary operators _ _ _
  | call h hargs => exact Node.isOperand_call _ _

/-- a printed tree is one operand, whatever surrounds it -/
theorem Node.Printable.derives {t : Node} (h : t.Printable) {depth : Nat} (hdepth : t.levels ≤ depth) :
    Derives [] depth t.tokens [t] := by
  induction h generalizing depth with
  | @number text canonical h =>
    have hleaf : Scope.numberLeaf canonical .start = .ok (.number canonical) := by
      rw [Scope.numberLeaf, canonicalize_canonicalize h]
    rw [Node.number, Node.leaf, Node.tokens_value]
    exact .token rfl hleaf (.nil depth)
  | string h =>
    rw [Node.string, Node.leaf, Node.tokens_value]
    exact .token rfl rfl (.nil depth)
  | null =>
    rw [Node.null, Node.leaf, Node.tokens_value]
    exact .token rfl rfl (.nil depth)
  | word h hword =>
    rw [Node.placeholder, Node.tokens_value, leafToken_reservedWord h]
    exact .token rfl rfl (.nil depth)
  | @binary op left right h hleft hright ihleft ihright =>
    rw [Node.levels_binary] at hdepth
    obtain ⟨d, rfl⟩ : ∃ d, depth = d + 1 := ⟨depth - 1, by omega⟩
    have hop : (operatorToken op).IsBinary := ⟨rfl, h⟩
    have hl : Derives [] d left.tokens [left] := ihleft (by omega)
    have hr : Derives [] d right.tokens [right] := ihright (by omega)
    have hinner := hl.append (hop.derives.append hr)
    have hfolds : Folds precedence [left, .placeholder op, right] [.binary op left right] :=
      folds_binary h hleft.isOperand hright.isOperand
    rw [Node.tokens_binary h]
    exact derives_parenthesized hinner hfolds
  | @call name args h hargs ih =>
    rw [Node.levels_call] at hdepth
    obtain ⟨d, rfl⟩ : ∃ d, depth = d + 1 := ⟨depth - 1, by omega⟩
    have hwithin : Node.Within d args := Node.mostLevels_le_iff.1 (by omega)
    have hinner := derives_arguments fun n hn => ih n hn (hwithin n hn)
    have hfolds : Folds precedence args args :=
      .of_no_operator fun operators hoperators n hn => (hargs n hn).isOperand operators hoperators
    have hname : Token.isFunction ⟨.ident, name, .start⟩ = true := h
    rw [Node.tokens_call (not_mem_binaryOperators h)]
    exact .call hname rfl rfl hinner hfolds (.nil _)

/-- **Printed trees read back**: a tree that can be written down is what its printed text stands for, under every limit
that covers its levels -/
theorem tree_print {t : Node} {limit : Nat} (h : t.Printable) (hlimit : t.levels ≤ limit) :
    Scope.tree ⟨[], limit⟩ t.print = .ok t := by
  obtain ⟨us, htokens, hlexemes⟩ := tokenize_spaced h.spelled
  have hderives : Derives [] limit us [t] := (h.derives hlimit).congr hlexemes
  have hparse := parse_eq_ok_iff.2 ⟨hlimit, [t], hderives, h.isOperand.folds⟩
  exact Scope.tree_eq_ok_iff.2 ⟨us, htokens, hparse⟩

/-- a call without arguments inside an operation, next to a string with blanks and a reserved word -/
def guardedTree : Node :=
  .call "IIF" [.binary "<=" (.number "-1.500000") (.call "RAND" []), .string " - a", .placeholder "SYSDATE", .null]

theorem tree_print_guarded :
    guardedTree.print = "IIF ( ( -1.500000 <= RAND ( ) ) , ' - a' , SYSDATE , NULL )" ∧ guardedTree.levels = 3 ∧
      Scope.tree ⟨[], 3⟩ guardedTree.print = .ok guardedTree := by
  have hnumber : canonicalize "-1.5" = some "-1.500000" := by decide +kernel
  have hcondition : Node.Printable (.binary "<=" (.number "-1.500000") (.call "RAND" [])) :=
    .binary (by decide) (.number hnumber) (.call (by decide) (by simp))
  have hprintable : guardedTree.Printable := by
    refine .call (by decide) ?_
    simp only [List.forall_mem_cons]
    exact ⟨hcondition, .string (by decide), .word (by decide) (by decide), .null, by simp⟩
  exact ⟨by decide +kernel, by decide +kernel, tree_print hprintable (by decide +kernel)⟩

end Formula
