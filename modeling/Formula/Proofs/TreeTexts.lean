/-
The texts of a tree.

A tree is written as JSON, in two layouts, and displayed as `TAG(arg, arg)`. `Node.ofText?` reads JSON back into a tree,
whatever its layout: `ofText?_toJson` says that it finds every tree in both its renderings, which are JSON texts of one value
and differ in blanks outside strings only.

The display leaves tags as they are, so that it does not tell all trees apart. It does where no tag holds a `(` or starts
like an argument or an end (`Node.Legible`): then a tree can be cut off the front of any text (`Node.display_append_inj`).
The tags of formulas are such, hence `display_tree_inj`.
-/
import Mathlib.Tactic
import Formula.Node.Json
import Formula.Proofs.Joined
import Formula.Proofs.JsonText
import Formula.Proofs.Reports
import Formula.Proofs.Shape

namespace Formula

/-! ## JSON -/

mutual

/-- the tree that a JSON value stands for -/
def Node.ofJson? : Json → Option Node
  | .object [(args, .array items), (tag, .string text)] =>
    if args = "args" ∧ tag = "tag" then (Arg.listOfJson? items).map fun args => ⟨text, args⟩ else none
  | _ => none

/-- the arguments that JSON values stand for -/
def Arg.listOfJson? : List Json → Option (List Arg)
  | [] => some []
  | .string text :: rest => (Arg.listOfJson? rest).map (.value text :: ·)
  | item :: rest => do
    let n ← Node.ofJson? item
    let args ← Arg.listOfJson? rest
    return .node n :: args

end

/-- the tree that a JSON text stands for, nested however deep -/
def Node.ofText? (text : String) : Option Node := (Json.readWithin? text.length text).bind Node.ofJson?

theorem Arg.listOfJson?_node {n m : Node} {args : List Arg} {rest : List Json} (hn : Node.ofJson? n.toJson = some m)
    (hrest : Arg.listOfJson? rest = some args) : Arg.listOfJson? (n.toJson :: rest) = some (.node m :: args) := by
  obtain ⟨tag, nargs⟩ := n
  rw [Node.toJson] at hn ⊢
  simp [Arg.listOfJson?, hn, hrest]

mutual

theorem Node.ofJson?_toJson : (n : Node) → Node.ofJson? n.toJson = some n
  | ⟨tag, args⟩ => by simp [Node.toJson, Node.ofJson?, Arg.listOfJson?_toJsonList args]

theorem Arg.listOfJson?_toJsonList : (args : List Arg) → Arg.listOfJson? (Arg.toJsonList args) = some args
  | [] => rfl
  | .value text :: rest => by simp [Arg.toJsonList, Arg.listOfJson?, Arg.listOfJson?_toJsonList rest]
  | .node n :: rest => by
    rw [Arg.toJsonList]
    exact Arg.listOfJson?_node (Node.ofJson?_toJson n) (Arg.listOfJson?_toJsonList rest)

end

mutual

theorem Node.textual_toJson : (n : Node) → n.toJson.Textual
  | ⟨tag, args⟩ => by
    rw [Node.toJson]
    refine .object (List.forall_mem_cons.2 ⟨.array (Arg.textual_toJsonList args), ?_⟩)
    exact List.forall_mem_singleton.2 (.string tag)

theorem Arg.textual_toJsonList : (args : List Arg) → ∀ j ∈ Arg.toJsonList args, j.Textual
  | [] => by simp [Arg.toJsonList]
  | .value text :: rest => List.forall_mem_cons.2 ⟨.string text, Arg.textual_toJsonList rest⟩
  | .node n :: rest => List.forall_mem_cons.2 ⟨Node.textual_toJson n, Arg.textual_toJsonList rest⟩

end

mutual

/-- the fields of a tree's JSON are in order -/
theorem Node.arranged_toJson : (n : Node) → n.toJson.arranged = n.toJson
  | ⟨tag, args⟩ => by
    have hargs : (Json.array (Arg.toJsonList args)).arranged = .array (Arg.toJsonList args) := by
      rw [Json.arranged_array, Arg.arranged_toJsonList args]
    have htag : (Json.string tag).arranged = .string tag := rfl
    have horder : ¬"tag" < "args" := by decide
    rw [Node.toJson, Json.arranged_object]
    simp [hargs, htag, horder, Json.arrangeFields, Json.insertField]

theorem Arg.arranged_toJsonList : (args : List Arg) → (Arg.toJsonList args).map Json.arranged = Arg.toJsonList args
  | [] => rfl
  | .value text :: rest => by
    have htext : (Json.string text).arranged = .string text := rfl
    rw [Arg.toJsonList, List.map_cons, htext, Arg.arranged_toJsonList rest]
  | .node n :: rest => by rw [Arg.toJsonList, List.map_cons, Node.arranged_toJson n, Arg.arranged_toJsonList rest]

end

theorem Node.ofText?_isText {n : Node} {text : String} (h : n.toJson.IsText text) : Node.ofText? text = some n := by
  rw [Node.ofText?, Json.readWithin?_length h, Node.arranged_toJson, Option.bind_some, Node.ofJson?_toJson]

/-- **JSON renders trees faithfully.** Whatever the tags, the texts and the depth of a tree, both renderings are JSON texts
of one value, and from each of them the tree is read back; so no other tree has the same compact text. The indented text is
the compact one, up to blanks outside strings. -/
theorem ofText?_toJson (n : Node) :
    (n.toJson.IsText n.toJson.compact ∧ n.toJson.IsText n.toJson.pretty) ∧
      (Node.ofText? n.toJson.compact = some n ∧ Node.ofText? n.toJson.pretty = some n) ∧
      (∀ m : Node, m.toJson.compact = n.toJson.compact → m = n) ∧ Json.unspaced n.toJson.pretty = n.toJson.compact := by
  have hcompact := n.textual_toJson.isText_compact
  have hpretty := n.textual_toJson.isText_pretty
  refine ⟨⟨hcompact, hpretty⟩, ⟨Node.ofText?_isText hcompact, Node.ofText?_isText hpretty⟩, ?_,
    n.textual_toJson.unspaced_pretty⟩
  intro m hm
  have hread : some m = some n := by
    calc some m = Node.ofText? m.toJson.compact := (Node.ofText?_isText m.textual_toJson.isText_compact).symm
      _ = Node.ofText? n.toJson.compact := by rw [hm]
      _ = some n := Node.ofText?_isText hcompact
  exact Option.some.inj hread

/-! ## Quoted texts -/

theorem digitChar_inj : ∀ a < 16, ∀ b < 16, Nat.digitChar a = Nat.digitChar b → a = b := by decide

/-- one digit is no more than one -/
theorem digit_ne_toDigits_append (x y : Char) (n : Nat) : [x] ≠ Nat.toDigits 16 n ++ [y] := by
  intro h
  have hlength := congrArg List.length h
  have hpos := List.length_pos_iff.2 (Nat.toDigits_ne_nil (n := n) (b := 16))
  simp only [List.length_append, List.length_singleton] at hlength
  omega

theorem toDigits_inj {m n : Nat} (h : Nat.toDigits 16 m = Nat.toDigits 16 n) : m = n := by
  induction m using Nat.strongRecOn generalizing n with
  | _ m ih =>
    rw [Nat.toDigits_eq_if (n := m) (by decide), Nat.toDigits_eq_if (n := n) (by decide)] at h
    split_ifs at h with hm hn hn
    · exact digitChar_inj m hm n hn (List.cons.inj h).1
    · exact absurd h (digit_ne_toDigits_append _ _ _)
    · exact absurd h.symm (digit_ne_toDigits_append _ _ _)
    · obtain ⟨hhigh, hlow⟩ := List.append_inj' h rfl
      have hdiv := ih (m / 16) (by omega) hhigh
      have hmod := digitChar_inj _ (Nat.mod_lt m (by decide)) _ (Nat.mod_lt n (by decide)) (List.cons.inj hlow).1
      omega

namespace Text

/-- the letters that stand for a character after a backslash -/
def quoteLetters : List (Char × Char) :=
  [('0', '\x00'), ('t', '\t'), ('r', '\r'), ('n', '\n'), ('"', '"'), ('\\', '\\')]

/-- a quoted character is a letter after a backslash, a code or itself -/
theorem quoteChar_cases (c : Char) :
    (∃ l, (l, c) ∈ quoteLetters ∧ quoteChar c = ['\\', l]) ∨ quoteChar c = codeEscape c ∨
      quoteChar c = [c] ∧ c ≠ '"' ∧ c ≠ '\\' := by
  unfold quoteChar
  split
  · exact .inl ⟨'0', by decide, rfl⟩
  · exact .inl ⟨'t', by decide, rfl⟩
  · exact .inl ⟨'r', by decide, rfl⟩
  · exact .inl ⟨'n', by decide, rfl⟩
  · exact .inl ⟨'"', by decide, rfl⟩
  · exact .inl ⟨'\\', by decide, rfl⟩
  · next _ _ _ _ hquote hbackslash =>
    split_ifs
    · exact .inr (.inl rfl)
    · exact .inr (.inr ⟨rfl, hquote, hbackslash⟩)

theorem codeEscape_append_inj {c d : Char} {us vs : List Char} (h : codeEscape c ++ us = codeEscape d ++ vs) :
    c = d ∧ us = vs := by
  have hbrace : ∀ k < 16, '\x7d' ≠ Nat.digitChar k := by decide
  simp only [codeEscape, List.cons_append, List.cons.injEq, true_and, List.append_assoc, List.nil_append] at h
  obtain ⟨hdigits, rfl⟩ := append_cons_inj (not_mem_toDigits hbrace _) (not_mem_toDigits hbrace _) h
  exact ⟨Char.toNat_inj.1 (toDigits_inj hdigits), rfl⟩

/-- **A quoted character can be cut off the front of a text** -/
theorem quoteChar_append_inj {c d : Char} {us vs : List Char} (h : quoteChar c ++ us = quoteChar d ++ vs) :
    c = d ∧ us = vs := by
  have hletter : ∀ p ∈ quoteLetters, p.1 ≠ 'u' := by decide
  have hsame : ∀ p ∈ quoteLetters, ∀ q ∈ quoteLetters, p.1 = q.1 → p.2 = q.2 := by decide
  rcases quoteChar_cases c with ⟨l, hl, hc⟩ | hc | ⟨hc, -, hbackslash⟩ <;>
    rcases quoteChar_cases d with ⟨l', hl', hd⟩ | hd | ⟨hd, -, hbackslash'⟩ <;> rw [hc, hd] at h
  · simp only [List.cons_append, List.nil_append, List.cons.injEq, true_and] at h
    exact ⟨hsame _ hl _ hl' h.1, h.2⟩
  · simp only [codeEscape, List.cons_append, List.nil_append, List.cons.injEq, true_and] at h
    exact absurd h.1 (hletter _ hl)
  · exact absurd (List.cons.inj h).1.symm hbackslash'
  · simp only [codeEscape, List.cons_append, List.nil_append, List.cons.injEq, true_and] at h
    exact absurd h.1.symm (hletter _ hl')
  · exact codeEscape_append_inj h
  · exact absurd (List.cons.inj h).1.symm hbackslash'
  · exact absurd (List.cons.inj h).1 hbackslash
  · exact absurd (List.cons.inj h).1 hbackslash
  · exact List.cons.inj h

theorem exists_quoteChar (c : Char) : ∃ x xs, quoteChar c = x :: xs ∧ x ≠ '"' := by
  rcases quoteChar_cases c with ⟨l, -, hc⟩ | hc | ⟨hc, hquote, -⟩
  · exact ⟨_, _, hc, by decide⟩
  · exact ⟨_, _, hc, by decide⟩
  · exact ⟨_, _, hc, hquote⟩

theorem quotedBody_append_inj {s t us vs : List Char}
    (h : s.flatMap quoteChar ++ '"' :: us = t.flatMap quoteChar ++ '"' :: vs) : s = t ∧ us = vs := by
  induction s generalizing t with
  | nil =>
    cases t with
    | nil => exact ⟨rfl, (List.cons.inj h).2⟩
    | cons d t =>
      obtain ⟨x, xs, hd, hx⟩ := exists_quoteChar d
      rw [List.flatMap_cons, hd] at h
      exact absurd (List.cons.inj h).1.symm hx
  | cons c s ih =>
    cases t with
    | nil =>
      obtain ⟨x, xs, hc, hx⟩ := exists_quoteChar c
      rw [List.flatMap_cons, hc] at h
      exact absurd (List.cons.inj h).1 hx
    | cons d t =>
      rw [List.flatMap_cons, List.flatMap_cons, List.append_assoc, List.append_assoc] at h
      obtain ⟨rfl, htail⟩ := quoteChar_append_inj h
      obtain ⟨rfl, rest⟩ := ih htail
      exact ⟨rfl, rest⟩

theorem quoted_append_inj {s t : String} {us vs : List Char} (h : (quoted s).toList ++ us = (quoted t).toList ++ vs) :
    s = t ∧ us = vs := by
  simp only [quoted, String.toList_ofList, List.cons_append, List.append_assoc, List.nil_append, List.cons.injEq,
    true_and] at h
  obtain ⟨hchars, rest⟩ := quotedBody_append_inj h
  exact ⟨String.toList_inj.1 hchars, rest⟩

end Text

/-! ## Display -/

/-- the display of an argument -/
def Arg.display : Arg → String
  | .value text => Text.quoted text
  | .node n => n.display

theorem Arg.displays_eq (args : List Arg) : Arg.displays args = args.map Arg.display := by
  induction args with
  | nil => rfl
  | cons arg args ih => cases arg <;> rw [Arg.displays, ih, List.map_cons, Arg.display]

/-- a tag that can be told from what surrounds it -/
structure LegibleTag (tag : String) : Prop where
  opener : '(' ∉ tag.toList
  quote : tag.toList.head? ≠ some '"'
  closer : tag.toList.head? ≠ some ')'

/-- all tags of the tree can be told from what surrounds them -/
inductive Node.Legible : Node → Prop where
  | intro {tag : String} {args : List Arg} (htag : LegibleTag tag) (hargs : ∀ n, .node n ∈ args → n.Legible) :
      Legible ⟨tag, args⟩

theorem Node.toList_display (tag : String) (args : List Arg) :
    (Node.display ⟨tag, args⟩).toList =
      tag.toList ++ '(' :: ([',', ' '].intercalate (args.map fun arg => arg.display.toList) ++ [')']) := by
  rw [Node.display, Arg.displays_eq]
  simp [String.toList_intercalate, Function.comp_def]

/-- the display starts with the tag or, if that is empty, with `(` -/
theorem Node.Legible.head_display {n : Node} (h : n.Legible) : ∃ x xs, n.display.toList = x :: xs ∧ x ≠ '"' ∧ x ≠ ')' := by
  obtain ⟨htag, -⟩ := h
  rename_i tag args
  rw [Node.toList_display]
  cases htext : tag.toList with
  | nil => exact ⟨_, _, rfl, by decide⟩
  | cons x xs =>
    refine ⟨x, _, rfl, ?_, ?_⟩
    · simpa [htext] using htag.quote
    · simpa [htext] using htag.closer

/-- a legible tree, or a text -/
def Arg.Legible : Arg → Prop
  | .value _ => True
  | .node n => n.Legible

theorem Arg.Legible.head_display {arg : Arg} (h : arg.Legible) : ∃ x xs, arg.display.toList = x :: xs ∧ x ≠ ')' := by
  cases arg with
  | value text => exact ⟨'"', _, by rw [Arg.display, Text.quoted, String.toList_ofList], by decide⟩
  | node n =>
    obtain ⟨x, xs, hn, -, hx⟩ := Node.Legible.head_display h
    exact ⟨x, xs, hn, hx⟩

/-- the argument can be cut off the front of a text -/
def Arg.Separable (arg : Arg) : Prop :=
  ∀ (other : Arg) (us vs : List Char), other.Legible → arg.display.toList ++ us = other.display.toList ++ vs →
    arg = other ∧ us = vs

/-- a text starts with a quote and a tree does not -/
theorem Arg.separable_value (text : String) : (Arg.value text).Separable := by
  intro other us vs hother h
  cases other with
  | value text' =>
    obtain ⟨rfl, rest⟩ := Text.quoted_append_inj h
    exact ⟨rfl, rest⟩
  | node n =>
    obtain ⟨x, xs, hn, hquote, -⟩ := Node.Legible.head_display hother
    rw [Arg.display, Arg.display, hn, Text.quoted, String.toList_ofList] at h
    exact absurd (List.cons.inj h).1.symm hquote

theorem Arg.separable_node {n : Node} (hn : n.Legible)
    (h : ∀ (m : Node) (us vs : List Char), m.Legible → n.display.toList ++ us = m.display.toList ++ vs → n = m ∧ us = vs) :
    (Arg.node n).Separable := by
  intro other us vs hother heq
  cases other with
  | value text =>
    obtain ⟨x, xs, hx, hquote, -⟩ := hn.head_display
    rw [Arg.display, Arg.display, hx, Text.quoted, String.toList_ofList] at heq
    exact absurd (List.cons.inj heq).1 hquote
  | node m =>
    obtain ⟨rfl, rest⟩ := h m us vs hother heq
    exact ⟨rfl, rest⟩

/-- arguments after the first, each after a comma, up to the `)` -/
theorem Arg.following_append_inj {args args' : List Arg} (h : ∀ arg ∈ args, arg.Separable) (h' : ∀ arg ∈ args', arg.Legible)
    {us vs : List Char}
    (heq : (args.flatMap fun arg => [',', ' '] ++ arg.display.toList) ++ ')' :: us =
      (args'.flatMap fun arg => [',', ' '] ++ arg.display.toList) ++ ')' :: vs) : args = args' ∧ us = vs := by
  induction args generalizing args' with
  | nil =>
    cases args' with
    | nil => exact ⟨rfl, (List.cons.inj heq).2⟩
    | cons arg' args' => exact absurd (List.cons.inj heq).1 (by decide)
  | cons arg args ih =>
    cases args' with
    | nil => exact absurd (List.cons.inj heq).1 (by decide)
    | cons arg' args' =>
      obtain ⟨harg, hargs⟩ := List.forall_mem_cons.1 h
      obtain ⟨harg', hargs'⟩ := List.forall_mem_cons.1 h'
      simp only [List.flatMap_cons, List.append_assoc, List.append_cancel_left_eq] at heq
      obtain ⟨rfl, hmore⟩ := harg arg' _ _ harg' heq
      obtain ⟨rfl, rest⟩ := ih hargs hargs' hmore
      exact ⟨rfl, rest⟩

/-- an argument list up to the `)` -/
theorem Arg.list_append_inj {args args' : List Arg} (h : ∀ arg ∈ args, arg.Separable) (hargs : ∀ arg ∈ args, arg.Legible)
    (hargs' : ∀ arg ∈ args', arg.Legible) {us vs : List Char}
    (heq : [',', ' '].intercalate (args.map fun arg => arg.display.toList) ++ ')' :: us =
      [',', ' '].intercalate (args'.map fun arg => arg.display.toList) ++ ')' :: vs) : args = args' ∧ us = vs := by
  cases args with
  | nil =>
    cases args' with
    | nil => exact ⟨rfl, (List.cons.inj heq).2⟩
    | cons arg' args' =>
      obtain ⟨x, xs, hx, hne⟩ := (hargs' arg' List.mem_cons_self).head_display
      rw [List.map_cons, intercalate_cons, hx] at heq
      exact absurd (List.cons.inj heq).1.symm hne
  | cons arg args =>
    cases args' with
    | nil =>
      obtain ⟨x, xs, hx, hne⟩ := (hargs arg List.mem_cons_self).head_display
      rw [List.map_cons, intercalate_cons, hx] at heq
      exact absurd (List.cons.inj heq).1 hne
    | cons arg' args' =>
      obtain ⟨hsep, hseps⟩ := List.forall_mem_cons.1 h
      obtain ⟨harg', hmore'⟩ := List.forall_mem_cons.1 hargs'
      simp only [List.map_cons, intercalate_cons, List.append_assoc, List.flatMap_map] at heq
      obtain ⟨rfl, hmore⟩ := hsep arg' _ _ harg' heq
      obtain ⟨rfl, rest⟩ := Arg.following_append_inj hseps hmore' hmore
      exact ⟨rfl, rest⟩

/-- **A legible tree can be cut off the front of a text** -/
theorem Node.display_append_inj {n m : Node} {us vs : List Char} (hn : n.Legible) (hm : m.Legible)
    (h : n.display.toList ++ us = m.display.toList ++ vs) : n = m ∧ us = vs := by
  -- the first `(` ends the tag of both trees; what follows is told apart argument by argument
  induction hn generalizing m us vs with
  | @intro tag args htag hargs ih =>
    obtain ⟨htag', hargs'⟩ := hm
    rename_i tag' args'
    simp only [Node.toList_display, List.append_assoc, List.cons_append, List.nil_append] at h
    obtain ⟨htags, hrest⟩ := append_cons_inj htag.opener htag'.opener h
    obtain rfl := String.toList_inj.1 htags
    have hlegible : ∀ {args : List Arg}, (∀ n, .node n ∈ args → n.Legible) → ∀ arg ∈ args, arg.Legible := by
      intro args h arg harg
      cases arg with
      | value text => trivial
      | node n => exact h n harg
    have hseparable : ∀ arg ∈ args, arg.Separable := by
      intro arg harg
      cases arg with
      | value text => exact Arg.separable_value text
      | node n => exact Arg.separable_node (hargs n harg) fun m us vs hm h => ih n harg hm h
    obtain ⟨rfl, rest⟩ := Arg.list_append_inj hseparable (hlegible hargs) (hlegible hargs') hrest
    exact ⟨rfl, rest⟩

/-! ## The display of formulas -/

instance (tag : String) : Decidable (LegibleTag tag) :=
  decidable_of_iff ('(' ∉ tag.toList ∧ tag.toList.head? ≠ some '"' ∧ tag.toList.head? ≠ some ')')
    ⟨fun h => ⟨h.1, h.2.1, h.2.2⟩, fun h => ⟨h.opener, h.quote, h.closer⟩⟩

theorem Node.Formed.legible {n : Node} (h : n.Formed) : n.Legible := by
  induction h with
  | value h =>
    obtain ⟨kind, text, rfl, -⟩ := h
    refine .intro ?_ (by simp)
    cases kind <;> decide
  | word h =>
    have hall : ∀ word ∈ standingWords, LegibleTag word := by decide +kernel
    exact .intro (hall _ h) (by simp)
  | @binary op left right hop _ _ ihleft ihright =>
    have hall : ∀ op ∈ binaryOperators, LegibleTag op := by decide +kernel
    refine .intro (hall _ hop) ?_
    intro n hn
    have hchild : n = left ∨ n = right := by simpa using hn
    rcases hchild with rfl | rfl
    · exact ihleft
    · exact ihright
  | @call name args hname _ _ ih =>
    have hall : ∀ name ∈ functionNames, LegibleTag name := by decide +kernel
    refine .intro (hall _ (List.contains_iff_mem.1 hname)) ?_
    intro n hn
    obtain ⟨m, hm, heq⟩ := List.mem_map.1 hn
    obtain rfl := Arg.node.inj heq
    exact ih m hm

/-- **The display tells the trees of formulas apart.** Two formulas whose trees are displayed alike have the same tree,
whatever their variables and limits. -/
theorem display_tree_inj {s s' : Scope} {formula formula' : String} {t t' : Node} (h : s.tree formula = .ok t)
    (h' : s'.tree formula' = .ok t') (hdisplay : t.display = t'.display) : t = t' := by
  have hlegible := (formed_tree h).1.legible
  have hlegible' := (formed_tree h').1.legible
  have htexts : t.display.toList ++ [] = t'.display.toList ++ [] := by rw [hdisplay]
  exact (Node.display_append_inj hlegible hlegible' htexts).1

/-- a call on a text that looks like the end of a text and the start of another tree -/
def misleadingCall : Node := .call "CONCAT" [.string "a\", STRING(", .number "1.000000"]

/-- the same, tag by tag -/
def misleadingTree : Node :=
  ⟨"CONCAT", [.node ⟨"STRING", [.value "a\", STRING("]⟩, .node ⟨"NUMBER", [.value "1.000000"]⟩]⟩

/-- the text comes from a literal or from a variable, and the display shows where it ends -/
theorem display_tree_inj_misleading :
    Scope.tree {} "CONCAT('a\", STRING(', 1)" = .ok misleadingCall ∧
      Scope.tree ⟨[⟨"x", .string, "a\", STRING("⟩], 1⟩ "CONCAT(x 1.0)" = .ok misleadingTree ∧
      misleadingCall.display = "CONCAT(STRING(\"a\\\", STRING(\"), NUMBER(\"1.000000\"))" ∧
      misleadingTree.display = misleadingCall.display ∧ misleadingTree = misleadingCall := by
  have h : Scope.tree {} "CONCAT('a\", STRING(', 1)" = .ok misleadingCall := by decide +kernel
  have h' : Scope.tree ⟨[⟨"x", .string, "a\", STRING("⟩], 1⟩ "CONCAT(x 1.0)" = .ok misleadingTree := by decide +kernel
  have hdisplay : misleadingTree.display = misleadingCall.display := by decide +kernel
  exact ⟨h, h', by decide +kernel, hdisplay, display_tree_inj h' h hdisplay⟩

end Formula
