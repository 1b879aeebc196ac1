/-
Variables put in before parsing.

A token enters the tree that is built in three ways only: as an operator or a function name it shapes the outline, as any
other token it gives a leaf or an error, and its position may be reported. Two token lists that agree in these token by
token, each read against its own variables, have outlines of one shape (`Outline.of_alike`) and parse to the same tree or
error (`Scope.parse_alike`).

`parse_substituted`: parsing against variables is parsing without any, once each name is replaced by a token with the
variable's value and each string by its text with the parameters put in.
-/
import Mathlib.Tactic
import Formula.Proofs.Derivation

namespace Formula

/-! ## Tokens that stand for the same -/

/-- the first token, read against `vars`, and the second one, read against `vars'`, do the same for a formula -/
structure Token.Alike (vars vars' : List Variable) (t t' : Token) : Prop where
  isOperator : ∀ symbol, t'.isOperator symbol = t.isOperator symbol
  isFunction : t'.isFunction = t.isFunction
  position : t'.position = t.position
  node : Scope.tokenNode { vars := vars' } t' = Scope.tokenNode { vars } t

namespace Token.Alike

variable {vars vars' : List Variable} {t t' : Token}

/-- function names are kept, since the complaint about a missing `(` shows them -/
theorem text_of_isFunction (h : Alike vars vars' t t') (hf : t.isFunction = true) : t'.text = t.text := by
  have hnode := h.node
  rw [Scope.tokenNode_function hf, Scope.tokenNode_function (h.isFunction.trans hf)] at hnode
  simp only [Except.error.injEq, ParseError.expectedParen.injEq] at hnode
  exact hnode.1

theorem text_of_isOperator (h : Alike vars vars' t t') {symbol : String} (ht : t.isOperator symbol = true) :
    t'.text = t.text := by
  have ht' := (h.isOperator symbol).trans ht
  simp only [Token.isOperator, Bool.and_eq_true, beq_iff_eq] at ht ht'
  rw [ht.2, ht'.2]

end Token.Alike

/-! ## Outlines of one shape -/

/-- items of one shape with tokens that stand for the same -/
inductive AlikeItems (vars vars' : List Variable) : List Item → List Item → Prop where
  | nil : AlikeItems vars vars' [] []
  | token {t t' : Token} {items items' : List Item} (ht : t.Alike vars vars' t') (h : AlikeItems vars vars' items items') :
      AlikeItems vars vars' (.token t :: items) (.token t' :: items')
  | group {opener opener' : Token} {closer? closer?' : Option Token} {body body' items items' : List Item}
      (ho : opener.Alike vars vars' opener') (hc : closer?'.isSome = closer?.isSome)
      (hbody : AlikeItems vars vars' body body') (h : AlikeItems vars vars' items items') :
      AlikeItems vars vars' (.group ⟨opener, body, closer?⟩ :: items) (.group ⟨opener', body', closer?'⟩ :: items')
  | call {name name' opener opener' : Token} {closer? closer?' : Option Token} {body body' items items' : List Item}
      (hname : name'.text = name.text) (ho : opener.Alike vars vars' opener') (hc : closer?'.isSome = closer?.isSome)
      (hbody : AlikeItems vars vars' body body') (h : AlikeItems vars vars' items items') :
      AlikeItems vars vars' (.call name ⟨opener, body, closer?⟩ :: items) (.call name' ⟨opener', body', closer?'⟩ :: items')

/-- breaks at the same place -/
structure AlikeBreak (vars vars' : List Variable) (b b' : Break) : Prop where
  text : b'.closer.text = b.closer.text
  position : b'.closer.position = b.closer.position
  length : b'.rest.length = b.rest.length
  items : AlikeItems vars vars' b.items b'.items

structure AlikeOutline (vars vars' : List Variable) (o o' : Outline) : Prop where
  items : AlikeItems vars vars' o.items o'.items
  breaks : List.Forall₂ (AlikeBreak vars vars') o.breaks o'.breaks

namespace AlikeOutline

variable {vars vars' : List Variable} {o o' : Outline} {t t' : Token}

theorem openGroup (ht : t.Alike vars vars' t') (h : AlikeOutline vars vars' o o') :
    AlikeOutline vars vars' (o.openGroup t) (o'.openGroup t') := by
  obtain ⟨items, breaks⟩ := o
  obtain ⟨items', breaks'⟩ := o'
  obtain ⟨hitems, hbreaks⟩ := h
  cases hbreaks with
  | nil => exact ⟨.group ht rfl hitems .nil, .nil⟩
  | cons hb hbreaks => exact ⟨.group ht rfl hitems hb.items, hbreaks⟩

theorem pushToken (ht : t.Alike vars vars' t') (h : AlikeOutline vars vars' o o') :
    AlikeOutline vars vars' (o.pushToken t) (o'.pushToken t') := by
  obtain ⟨items, breaks⟩ := o
  obtain ⟨items', breaks'⟩ := o'
  obtain ⟨hitems, hbreaks⟩ := h
  cases hf : t.isFunction with
  | false =>
    rw [Outline.pushToken_of_not_function hf, Outline.pushToken_of_not_function (ht.isFunction.trans hf)]
    exact ⟨.token ht hitems, hbreaks⟩
  | true =>
    have hf' := ht.isFunction.trans hf
    simp only [Outline.pushToken, hf, hf']
    -- a function name takes the group behind it, in both outlines or in none
    cases hitems with
    | nil => exact ⟨.token ht .nil, hbreaks⟩
    | token hu hitems => exact ⟨.token ht (.token hu hitems), hbreaks⟩
    | group ho hc hbody hitems => exact ⟨.call (ht.text_of_isFunction hf) ho hc hbody hitems, hbreaks⟩
    | call hname ho hc hbody hitems => exact ⟨.token ht (.call hname ho hc hbody hitems), hbreaks⟩

end AlikeOutline

/-- **Tokens that stand for the same are outlined in the same way** -/
theorem Outline.of_alike {vars vars' : List Variable} {ts ts' : List Token}
    (h : List.Forall₂ (Token.Alike vars vars') ts ts') : AlikeOutline vars vars' (of ts) (of ts') := by
  induction h with
  | nil => exact ⟨.nil, .nil⟩
  | @cons t t' ts ts' ht hts ih =>
    cases ho : t.isOperator "(" with
    | true =>
      rw [of_opener ho, of_opener ((ht.isOperator "(").trans ho)]
      exact ih.openGroup ht
    | false =>
      have ho' := (ht.isOperator "(").trans ho
      cases hc : t.isOperator ")" with
      | true =>
        rw [of_closer hc, of_closer ((ht.isOperator ")").trans hc)]
        exact ⟨.nil, .cons ⟨ht.text_of_isOperator hc, ht.position, hts.length_eq.symm, ih.items⟩ ih.breaks⟩
      | false =>
        rw [of_other ho hc, of_other ho' ((ht.isOperator ")").trans hc)]
        exact ih.pushToken ht

/-! ## Parsing -/

namespace Scope

variable {vars vars' : List Variable} {limit : Nat}

/-- a group is read through its contents, and its `(` is shown if the `)` is missing -/
theorem groupEntries_congr {depth : Nat} {opener opener' : Token} {body body' : List Item}
    {closer? closer?' : Option Token} (ho : opener'.position = opener.position) (hc : closer?'.isSome = closer?.isSome)
    (hbody : entries ⟨vars', limit⟩ (depth + 1) body' = entries ⟨vars, limit⟩ (depth + 1) body) :
    groupEntries ⟨vars', limit⟩ depth ⟨opener', body', closer?'⟩ =
      groupEntries ⟨vars, limit⟩ depth ⟨opener, body, closer?⟩ := by
  rw [groupEntries, groupEntries, hbody, ho]
  cases closer? with
  | none =>
    obtain rfl : closer?' = none := by simpa using hc
    rfl
  | some closer =>
    obtain ⟨closer', rfl⟩ := Option.isSome_iff_exists.1 hc
    rfl

theorem entries_alike {items items' : List Item} (h : AlikeItems vars vars' items items') (depth : Nat) :
    entries ⟨vars', limit⟩ depth items' = entries ⟨vars, limit⟩ depth items := by
  induction h generalizing depth with
  | nil => rfl
  | @token t t' items items' ht _ ih =>
    have hnode : tokenNode ⟨vars', limit⟩ t' = tokenNode ⟨vars, limit⟩ t := ht.node
    rw [entries, entries, ht.isOperator, hnode, ih]
  | group ho hc _ _ ihbody ih => rw [entries, entries, groupEntries_congr ho.position hc (ihbody _), ih]
  | call hname ho hc _ _ ihbody ih =>
    rw [entries, entries, groupEntries_congr ho.position hc (ihbody _), ih, hname]
    rfl

/-- **Tokens that stand for the same parse alike**, to the same tree or to the same error -/
theorem parse_alike {ts ts' : List Token} (h : List.Forall₂ (Token.Alike vars vars') ts ts') :
    parse ⟨vars', limit⟩ ts' = parse ⟨vars, limit⟩ ts := by
  obtain ⟨hitems, hbreaks⟩ := Outline.of_alike h
  have hlength : ts'.length = ts.length := h.length_eq.symm
  unfold parse trace
  simp only [Traced.outcome_bind, Traced.outcome_report, entries_alike hitems, hlength]
  generalize (Outline.of ts).breaks = breaks at hbreaks ⊢
  generalize (Outline.of ts').breaks = breaks' at hbreaks ⊢
  cases hbreaks with
  | nil => rfl
  | cons hb _ =>
    simp only [hb.text, hb.position, hb.length]

end Scope

/-! ## Substitution -/

namespace Variable

/-- the token that a variable puts in the place of its name -/
def token (v : Variable) (position : Position) : Token :=
  match v.kind with
  | .number => ⟨.number, v.value, position⟩
  | .string => ⟨.string, v.value, position⟩
  | .null => ⟨.keyword, "NULL", position⟩

theorem position_token (v : Variable) (p : Position) : (v.token p).position = p := by
  unfold token
  cases v.kind <;> rfl

theorem isOperator_token (v : Variable) (p : Position) (symbol : String) : (v.token p).isOperator symbol = false := by
  unfold token
  cases v.kind <;> rfl

theorem isFunction_token (v : Variable) (p : Position) : (v.token p).isFunction = false := by
  unfold token
  cases v.kind <;> rfl

end Variable

namespace Token

/-- the first variable that a token names put in its place, if there is one -/
def valued (vars : List Variable) (t : Token) : Token :=
  match vars.find? (·.name == t.text) with
  | some v => v.token t.position
  | none => t

/-- a token with variables put in: names by the value of their variable, strings parameter by parameter -/
def substituted (vars : List Variable) (t : Token) : Token :=
  match t.kind with
  | .param => t.valued vars
  | .ident => if isFunctionName t.text then t else t.valued vars
  | .string => { t with text := Variable.interpolate vars t.text }
  | .operator | .keyword | .number => t

end Token

/-- a variable's token stands for what its name stands for -/
theorem Scope.tokenNode_token {vars : List Variable} (hnull : ∀ v ∈ vars, v.kind = .null → v.value = "NULL") {t : Token}
    {v : Variable} (hv : vars.find? (·.name == t.text) = some v) :
    tokenNode { vars := [] } (v.token t.position) = variableLeaf { vars } t := by
  have hmem : v ∈ vars := List.mem_of_find?_eq_some hv
  have hfind : Scope.find? { vars } t.text = some v := hv
  rw [variableLeaf, hfind]
  obtain ⟨name, kind, value⟩ := v
  cases kind with
  | number => rfl
  | string => rfl
  | null =>
    obtain rfl : value = "NULL" := hnull _ hmem rfl
    rfl

namespace Token

variable {vars : List Variable} {t : Token}

/-- a name that is neither an operator nor a function is as good as its variable's token -/
theorem alike_valued (hnull : ∀ v ∈ vars, v.kind = .null → v.value = "NULL") (hoperator : t.kind ≠ .operator)
    (hfunction : t.isFunction = false) (hleaf : ∀ vars, Scope.tokenNode { vars } t = Scope.variableLeaf { vars } t) :
    t.Alike vars [] (t.valued vars) := by
  unfold valued
  cases hfind : vars.find? (·.name == t.text) with
  | none =>
    refine ⟨fun _ => rfl, rfl, rfl, ?_⟩
    have hvars : Scope.find? { vars } t.text = none := hfind
    rw [hleaf, hleaf, Scope.variableLeaf, Scope.variableLeaf, hvars]
    rfl
  | some v =>
    refine ⟨?_, ?_, v.position_token t.position, ?_⟩
    · intro symbol
      rw [v.isOperator_token]
      simp [isOperator, hoperator]
    · rw [v.isFunction_token, hfunction]
    · rw [hleaf]
      exact Scope.tokenNode_token hnull hfind

theorem alike_substituted (hnull : ∀ v ∈ vars, v.kind = .null → v.value = "NULL") (t : Token) :
    t.Alike vars [] (t.substituted vars) := by
  obtain ⟨kind, text, position⟩ := t
  cases kind with
  | operator | keyword | number => exact ⟨fun _ => rfl, rfl, rfl, rfl⟩
  | string => exact ⟨fun _ => rfl, rfl, rfl, rfl⟩
  | param => exact alike_valued hnull nofun rfl fun _ => rfl
  | ident =>
    cases hfunction : isFunctionName text with
    | true =>
      have hfixed : substituted vars ⟨.ident, text, position⟩ = ⟨.ident, text, position⟩ := if_pos hfunction
      have hname : isFunction ⟨.ident, text, position⟩ = true := hfunction
      rw [hfixed]
      exact ⟨fun _ => rfl, rfl, rfl, by rw [Scope.tokenNode_function hname, Scope.tokenNode_function hname]⟩
    | false =>
      have hname : ¬ isFunctionName text = true := by simp [hfunction]
      have hvalued : substituted vars ⟨.ident, text, position⟩ = valued vars ⟨.ident, text, position⟩ := if_neg hname
      rw [hvalued]
      exact alike_valued hnull nofun hfunction fun _ => if_neg hname

end Token

/-- **Variables may be put in first.** Parsing a token list against variables, of which those of kind `NULL` have the value
`NULL`, gives the same tree or the same error, at the same place, as parsing it without variables after each name is
replaced by its first variable and each string by its text with the parameters put in. -/
theorem parse_substituted {vars : List Variable} (hnull : ∀ v ∈ vars, v.kind = .null → v.value = "NULL") (limit : Nat)
    (ts : List Token) : Scope.parse ⟨vars, limit⟩ ts = Scope.parse ⟨[], limit⟩ (ts.map (Token.substituted vars)) := by
  have halike : List.Forall₂ (Token.Alike vars []) ts (ts.map (Token.substituted vars)) := by
    rw [List.forall₂_map_right_iff]
    exact List.forall₂_same.2 fun t _ => Token.alike_substituted hnull t
  exact (Scope.parse_alike halike).symm

/-- a parameter, a number that a later variable of the same name does not change, and a null -/
def mixedVars : List Variable := [⟨"$p", .string, "a"⟩, ⟨"x", .number, "1e3"⟩, ⟨"x", .string, "$p"⟩, ⟨"n", .null, "NULL"⟩]

/-- the tokens of `CONCAT('$p-',x,n)` -/
def mixedCall : List Token :=
  [⟨.ident, "CONCAT", ⟨0, 1, 1⟩⟩, ⟨.operator, "(", ⟨6, 1, 7⟩⟩, ⟨.string, "$p-", ⟨7, 1, 8⟩⟩, ⟨.operator, ",", ⟨12, 1, 13⟩⟩,
    ⟨.ident, "x", ⟨13, 1, 14⟩⟩, ⟨.operator, ",", ⟨14, 1, 15⟩⟩, ⟨.ident, "n", ⟨15, 1, 16⟩⟩, ⟨.operator, ")", ⟨16, 1, 17⟩⟩]

/-- a call whose arguments are put in from variables, and the error that is left when its `)` is cut off -/
theorem parse_substituted_mixed :
    (mixedCall.map (Token.substituted mixedVars)).map (fun t => (t.kind, t.text)) =
        [(.ident, "CONCAT"), (.operator, "("), (.string, "a-"), (.operator, ","), (.number, "1e3"), (.operator, ","),
          (.keyword, "NULL"), (.operator, ")")] ∧
      Scope.parse ⟨mixedVars, 1⟩ mixedCall = .ok (.call "CONCAT" [.string "a-", .number "1000.000000", .null]) ∧
      Scope.parse ⟨mixedVars, 1⟩ (mixedCall.take 7) = .error (.unclosedParen ⟨6, 1, 7⟩) := by
  have hnull : ∀ v ∈ mixedVars, v.kind = .null → v.value = "NULL" := by decide
  refine ⟨by decide +kernel, ?_, ?_⟩
  · rw [parse_substituted hnull]
    decide +kernel
  · rw [parse_substituted hnull]
    decide +kernel

end Formula
