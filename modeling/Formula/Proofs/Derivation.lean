/-
Successful parsing as a relation between tokens and trees.

`Derives vars depth ts ns` says that the tokens `ts`, whose groups are nested at most `depth` deep, stand for the trees
`ns` before these are folded: a token for its own leaf or placeholder, a group for what its contents fold to, a call for
one tree. It has a rule for each form, no positions and no limit on levels, and derivations can be put side by side
(`Derives.append`).

`parse_eq_ok_iff`: under a limit a token list parses to a tree exactly if it derives trees that fold to this one, its
groups are nested no deeper than the limit, and the tree has no more levels than the limit.
-/
import Mathlib.Tactic
import Formula.Parsing
import Formula.Proofs.Folding

namespace Formula

/-! ## Tokens -/

/-- parentheses and commas: they shape a formula and stand for no part of its tree -/
def Token.isPunctuation (t : Token) : Bool := t.isOperator "(" || t.isOperator ")" || t.isOperator ","

theorem Token.isOperator_of_isOperator {t : Token} {a b : String} (h : t.isOperator a = true) :
    t.isOperator b = (a == b) := by
  simp only [isOperator, Bool.and_eq_true, beq_iff_eq] at h ⊢
  simp [h.1, h.2]

theorem Token.isOperator_of_isFunction {t : Token} (h : t.isFunction = true) (symbol : String) :
    t.isOperator symbol = false := by
  simp only [isFunction, Bool.and_eq_true, beq_iff_eq] at h
  simp [isOperator, h.1]

theorem Scope.numberLeaf_ok {text : String} {p : Position} {n : Node} (h : numberLeaf text p = .ok n) :
    ∃ canonical, canonicalize text = some canonical ∧ n = .number canonical := by
  unfold numberLeaf at h
  split at h
  · rename_i canonical hc
    exact ⟨canonical, hc, by simpa using h.symm⟩
  · simp at h

theorem Scope.variableLeaf_ok {s : Scope} {t : Token} {n : Node} (h : s.variableLeaf t = .ok n) :
    ∃ kind text, n = .leaf kind text ∧ (kind = .number → ∃ source, canonicalize source = some text) := by
  unfold variableLeaf at h
  split at h
  · simp at h
  · split at h
    · obtain ⟨canonical, hcanonical, rfl⟩ := numberLeaf_ok h
      exact ⟨.number, canonical, rfl, fun _ => ⟨_, hcanonical⟩⟩
    · rename_i hnumber
      exact ⟨_, _, (Except.ok.inj h).symm, fun hkind => absurd hkind hnumber⟩

/-- a single token stands for a leaf, or for the placeholder of an operator or reserved word; number text is put into
canonical form -/
theorem Scope.tokenNode_ok {s : Scope} {t : Token} {n : Node} (h : s.tokenNode t = .ok n) :
    (∃ kind text, n = .leaf kind text ∧ (kind = .number → ∃ source, canonicalize source = some text)) ∨
      (t.kind = .operator ∨ t.kind = .keyword) ∧ n = .placeholder t.text := by
  unfold tokenNode at h
  split at h
  · split_ifs at h
    exact .inl (variableLeaf_ok h)
  · exact .inl (variableLeaf_ok h)
  · obtain ⟨canonical, hcanonical, rfl⟩ := numberLeaf_ok h
    exact .inl ⟨.number, canonical, rfl, fun _ => ⟨_, hcanonical⟩⟩
  · exact .inl ⟨.string, _, (Except.ok.inj h).symm, nofun⟩
  · rename_i hk
    exact .inr ⟨.inl hk, by simpa using h.symm⟩
  · rename_i hk
    exact .inr ⟨.inr hk, by simpa using h.symm⟩

theorem Scope.levels_tokenNode {s : Scope} {t : Token} {n : Node} (h : s.tokenNode t = .ok n) : n.levels = 0 := by
  rcases tokenNode_ok h with ⟨kind, text, rfl, -⟩ | ⟨_, rfl⟩
  · exact Node.levels_leaf kind text
  · exact Node.levels_placeholder t.text

theorem Scope.isFunction_tokenNode {s : Scope} {t : Token} {n : Node} (h : s.tokenNode t = .ok n) :
    t.isFunction = false := by
  unfold tokenNode at h
  unfold Token.isFunction
  split at h
  · rename_i hk
    split_ifs at h with hf
    simp [hf]
  all_goals simp_all

/-- a function name by itself lacks its argument list -/
theorem Scope.tokenNode_function {s : Scope} {t : Token} (h : t.isFunction = true) :
    s.tokenNode t = .error (.expectedParen t.text t.position) := by
  simp only [Token.isFunction, Bool.and_eq_true, beq_iff_eq] at h
  rw [tokenNode, h.1]
  exact if_pos h.2

/-! ## The relation -/

/-- the tokens, with groups nested at most so deep, stand for these trees before folding -/
inductive Derives (vars : List Variable) : (depth : Nat) → List Token → List Node → Prop where
  | nil (depth : Nat) : Derives vars depth [] []
  | comma {depth : Nat} {t : Token} {ts : List Token} {ns : List Node} (ht : t.isOperator "," = true)
      (h : Derives vars depth ts ns) : Derives vars depth (t :: ts) ns
  | token {depth : Nat} {t : Token} {n : Node} {ts : List Token} {ns : List Node} (ht : t.isPunctuation = false)
      (hn : Scope.tokenNode { vars } t = .ok n) (h : Derives vars depth ts ns) : Derives vars depth (t :: ts) (n :: ns)
  | group {depth : Nat} {opener closer : Token} {inner ts : List Token} {mid folded ns : List Node}
      (ho : opener.isOperator "(" = true) (hc : closer.isOperator ")" = true) (hin : Derives vars depth inner mid)
      (hf : Folds precedence mid folded) (h : Derives vars (depth + 1) ts ns) :
      Derives vars (depth + 1) (opener :: (inner ++ closer :: ts)) (folded ++ ns)
  | call {depth : Nat} {name opener closer : Token} {inner ts : List Token} {mid folded ns : List Node}
      (hname : name.isFunction = true) (ho : opener.isOperator "(" = true) (hc : closer.isOperator ")" = true)
      (hin : Derives vars depth inner mid) (hf : Folds precedence mid folded) (h : Derives vars (depth + 1) ts ns) :
      Derives vars (depth + 1) (name :: opener :: (inner ++ closer :: ts)) (.call name.text folded :: ns)

namespace Derives

variable {vars : List Variable} {depth : Nat} {ts us : List Token} {ns ms : List Node}

theorem append (h : Derives vars depth ts ns) (h' : Derives vars depth us ms) :
    Derives vars depth (ts ++ us) (ns ++ ms) := by
  induction h with
  | nil depth => exact h'
  | comma ht _ ih => exact .comma ht (ih h')
  | token ht hn _ ih => exact .token ht hn (ih h')
  | group ho hc hin hf _ _ ih =>
    simpa using Derives.group ho hc hin hf (ih h')
  | call hname ho hc hin hf _ _ ih =>
    simpa using Derives.call hname ho hc hin hf (ih h')

/-- deeper nesting may be allowed -/
theorem mono (h : Derives vars depth ts ns) {depth' : Nat} (hle : depth ≤ depth') : Derives vars depth' ts ns := by
  induction h generalizing depth' with
  | nil depth => exact .nil depth'
  | comma ht _ ih => exact .comma ht (ih hle)
  | token ht hn _ ih => exact .token ht hn (ih hle)
  | group ho hc _ hf _ ihin ih =>
    cases depth' with
    | zero => omega
    | succ d => exact .group ho hc (ihin (Nat.le_of_succ_le_succ hle)) hf (ih hle)
  | call hname ho hc _ hf _ ihin ih =>
    cases depth' with
    | zero => omega
    | succ d => exact .call hname ho hc (ihin (Nat.le_of_succ_le_succ hle)) hf (ih hle)

end Derives

/-! ## Outlines -/

namespace Outline

variable {t opener closer name : Token} {ts : List Token}

theorem of_opener (h : opener.isOperator "(" = true) : of (opener :: ts) = openGroup opener (of ts) := by
  rw [of, if_pos h]

theorem of_closer (h : closer.isOperator ")" = true) :
    of (closer :: ts) = ⟨[], ⟨closer, ts, (of ts).items⟩ :: (of ts).breaks⟩ := by
  have ho : closer.isOperator "(" = false := by rw [Token.isOperator_of_isOperator h]; decide
  rw [of, if_neg (by simp [ho]), if_pos h]

theorem of_other (ho : t.isOperator "(" = false) (hc : t.isOperator ")" = false) :
    of (t :: ts) = pushToken t (of ts) := by
  rw [of, if_neg (by simp [ho]), if_neg (by simp [hc])]

theorem of_function (h : name.isFunction = true) : of (name :: ts) = pushToken name (of ts) :=
  of_other (Token.isOperator_of_isFunction h _) (Token.isOperator_of_isFunction h _)

theorem pushToken_of_not_function (h : t.isFunction = false) (o : Outline) :
    pushToken t o = ⟨.token t :: o.items, o.breaks⟩ := by
  simp [pushToken, h]

theorem pushToken_group (h : name.isFunction = true) (g : Group) (items : List Item) (breaks : List Break) :
    pushToken name ⟨.group g :: items, breaks⟩ = ⟨.call name g :: items, breaks⟩ := by
  simp [pushToken, h]

/-- only a parenthesis puts a group in front -/
theorem opener_of_group {g : Group} {items : List Item} (h : (of ts).items = .group g :: items) :
    ∃ opener rest, ts = opener :: rest ∧ opener.isOperator "(" = true := by
  match ts with
  | [] => simp [of] at h
  | t :: rest =>
    refine ⟨t, rest, rfl, ?_⟩
    by_contra ho
    rw [Bool.not_eq_true] at ho
    cases hc : t.isOperator ")" with
    | true => simp [of_closer hc] at h
    | false =>
      rw [of_other ho hc, pushToken] at h
      split at h <;> simp at h

/-- a parenthesis puts a group in front, which holds the items behind it and ends at the first break -/
theorem exists_group (h : opener.isOperator "(" = true) (ts : List Token) :
    ∃ items breaks, of (opener :: ts) =
      ⟨.group ⟨opener, (of ts).items, (of ts).breaks.head?.map Break.closer⟩ :: items, breaks⟩ := by
  rw [of_opener h, openGroup]
  split
  · rename_i hbreaks
    exact ⟨[], [], by rw [hbreaks]; rfl⟩
  · rename_i b breaks hbreaks
    exact ⟨b.items, breaks, by rw [hbreaks]; rfl⟩

/-- a token is an item by itself, unless it is a function name in front of a `(` -/
theorem of_single (ho : t.isOperator "(" = false) (hc : t.isOperator ")" = false)
    (hcall : t.isFunction = true → ∀ u ∈ ts.head?, u.isOperator "(" = false) :
    of (t :: ts) = ⟨.token t :: (of ts).items, (of ts).breaks⟩ := by
  rw [of_other ho hc, pushToken]
  split
  · rename_i g items hname hitems
    obtain ⟨opener, rest, rfl, ho'⟩ := opener_of_group hitems
    simp [hcall hname opener rfl] at ho'
  · rfl

end Outline

/-- induction over a token list in the steps in which it is read: a `)` ends it, a `(`, with a function name in front of it
or without one, leaves any shorter list behind, and any other token is a step of its own -/
theorem tokens_induction {P : List Token → Prop} (nil : P [])
    (closer : ∀ t rest, t.isOperator ")" = true → P (t :: rest))
    (group : ∀ opener rest, opener.isOperator "(" = true → (∀ us, us.length ≤ rest.length → P us) → P (opener :: rest))
    (call : ∀ name opener rest, name.isFunction = true → opener.isOperator "(" = true →
      (∀ us, us.length ≤ rest.length → P us) → P (name :: opener :: rest))
    (single : ∀ t rest, t.isOperator "(" = false → t.isOperator ")" = false →
      (t.isFunction = true → ∀ u ∈ rest.head?, u.isOperator "(" = false) → P rest → P (t :: rest))
    (ts : List Token) : P ts := by
  match ts with
  | [] => exact nil
  | t :: rest =>
    have ih : ∀ us, us.length ≤ rest.length → P us := fun us _ => tokens_induction nil closer group call single us
    cases ho : t.isOperator "(" with
    | true => exact group t rest ho ih
    | false =>
      cases hc : t.isOperator ")" with
      | true => exact closer t rest hc
      | false =>
        by_cases hcall : t.isFunction = true → ∀ u ∈ rest.head?, u.isOperator "(" = false
        · exact single t rest ho hc hcall (ih rest le_rfl)
        · push Not at hcall
          obtain ⟨hname, opener, hhead, ho'⟩ := hcall
          obtain ⟨rest', rfl⟩ := List.head?_eq_some_iff.1 hhead
          exact call t opener rest' hname (by simpa using ho') fun us hus => ih us (by simp; omega)
termination_by ts.length
decreasing_by simp; omega

/-! ## One item -/

namespace Scope

variable {s : Scope} {depth : Nat} {t name : Token} {g : Group} {items : List Item} {es : List Entry}

theorem entries_comma (ht : t.isOperator "," = true) : s.entries depth (.token t :: items) = s.entries depth items := by
  rw [entries, if_pos ht]

theorem entries_token_ok_iff (ht : t.isOperator "," = false) :
    (s.entries depth (.token t :: items)).outcome = .ok es ↔
      ∃ n, s.tokenNode t = .ok n ∧ ∃ more, (s.entries depth items).outcome = .ok more ∧ .flat n :: more = es := by
  rw [entries, if_neg (by simp [ht])]
  simp [bind_eq_ok_iff]

theorem entries_group_ok_iff :
    (s.entries depth (.group g :: items)).outcome = .ok es ↔
      ∃ inner, (s.groupEntries depth g).outcome = .ok inner ∧
        ∃ more, (s.entries depth items).outcome = .ok more ∧ inner ++ more = es := by
  rw [entries]
  simp [bind_eq_ok_iff]

theorem entries_call_ok_iff :
    (s.entries depth (.call name g :: items)).outcome = .ok es ↔
      ∃ args, (s.groupEntries depth g).outcome = .ok args ∧ ∃ entry, (s.callEntry name.text args).outcome = .ok entry ∧
        ∃ more, (s.entries depth items).outcome = .ok more ∧ entry :: more = es := by
  rw [entries]
  simp [bind_eq_ok_iff]

theorem groupEntries_ok_iff {opener : Token} {body : List Item} {closer? : Option Token} :
    (s.groupEntries depth ⟨opener, body, closer?⟩).outcome = .ok es ↔
      depth + 1 ≤ s.maxDepth ∧ closer?.isSome ∧
        ∃ inner, (s.entries (depth + 1) body).outcome = .ok inner ∧
          (foldLevels s.maxDepth precedence inner).outcome = .ok es := by
  rw [groupEntries]
  split_ifs with h
  · exact iff_of_false (by simp) fun hle => absurd hle.1 (not_le.2 h)
  · rw [and_iff_right (not_lt.1 h)]
    cases closer? <;> simp [bind_eq_ok_iff]

theorem callEntry_ok_iff {name : String} {args : List Node} {entry : Entry} :
    (s.callEntry name (args.map .ofNode)).outcome = .ok entry ↔
      entry = .ofNode (.call name args) ∧ (Node.call name args).levels ≤ s.maxDepth := by
  have hheight : Entry.ofNode (.call name args) = ⟨.call name args, 1 + Node.mostLevels args⟩ := by
    rw [Entry.ofNode, Node.levels_call]
  have hnodes : (args.map Entry.ofNode).map (·.node) = args := by simp [Entry.ofNode, Function.comp_def]
  rw [hheight, Node.levels_call, callEntry, tallest_map_ofNode, hnodes, Traced.outcome_bind_eq_ok]
  simp only [Traced.outcome_report]
  split_ifs with h
  · exact iff_of_false (by simp) fun hle => absurd hle.2 (not_le.2 h)
  · rw [and_iff_left (not_lt.1 h)]
    simp [eq_comm]

end Scope

/-! ## From the parser to derivations -/

/-- `pre` is what comes before the first break of the outline of the tokens -/
inductive EndsAt : List Token → List Token → List Break → Prop where
  | whole (pre : List Token) : EndsAt pre pre []
  | stop (pre : List Token) (b : Break) {breaks : List Break} (hc : b.closer.isOperator ")" = true)
      (ho : Outline.of b.rest = ⟨b.items, breaks⟩) : EndsAt (pre ++ b.closer :: b.rest) pre (b :: breaks)

/-- whatever the outline of these tokens reads as is derived from the tokens before its first break -/
def ReadsOutline (s : Scope) (ts : List Token) : Prop :=
  ∀ depth es, depth ≤ s.maxDepth → (s.entries depth (Outline.of ts).items).outcome = .ok es →
    ∃ pre ns, es = ns.map .ofNode ∧ Derives s.vars (s.maxDepth - depth) pre ns ∧ Node.Within s.maxDepth ns ∧
      EndsAt ts pre (Outline.of ts).breaks

/-- a group that can be read is closed, and its contents derive trees that fold to its own -/
theorem Scope.group_ok {s : Scope} {opener : Token} {rest : List Token} {depth : Nat} {g : Group} {items : List Item}
    {breaks : List Break} {es : List Entry} (ho : opener.isOperator "(" = true) (ih : ReadsOutline s rest)
    (hof : Outline.of (opener :: rest) = ⟨.group g :: items, breaks⟩)
    (h : (s.groupEntries depth g).outcome = .ok es) :
    ∃ inner closer after mid folded d, rest = inner ++ closer :: after ∧ closer.isOperator ")" = true ∧
      Outline.of after = ⟨items, breaks⟩ ∧ s.maxDepth - depth = d + 1 ∧ Derives s.vars d inner mid ∧
      Folds precedence mid folded ∧ es = folded.map .ofNode ∧ Node.Within s.maxDepth folded := by
  rw [Outline.of_opener ho, Outline.openGroup] at hof
  split at hof
  · -- no break: the group stays open
    simp only [Outline.mk.injEq, List.cons.injEq, Item.group.injEq] at hof
    obtain ⟨⟨rfl, -⟩, -⟩ := hof
    simp [Scope.groupEntries_ok_iff] at h
  · rename_i b bs hbreaks
    simp only [Outline.mk.injEq, List.cons.injEq, Item.group.injEq] at hof
    obtain ⟨⟨rfl, rfl⟩, rfl⟩ := hof
    obtain ⟨hdepth, -, inner, hinner, hfold⟩ := Scope.groupEntries_ok_iff.1 h
    obtain ⟨pre, mid, rfl, hder, hwithin, hends⟩ := ih _ _ hdepth hinner
    obtain ⟨folded, rfl, hfolds, hout⟩ := foldLevels_ok hwithin hfold
    rw [hbreaks] at hends
    cases hends with
    | stop _ _ hc hrest =>
      exact ⟨pre, b.closer, b.rest, mid, folded, s.maxDepth - (depth + 1), rfl, hc, hrest, by omega, hder, hfolds, rfl,
        hout⟩

theorem EndsAt.cons (head : List Token) {ts pre : List Token} {breaks : List Break} (h : EndsAt ts pre breaks) :
    EndsAt (head ++ ts) (head ++ pre) breaks := by
  cases h with
  | whole => exact .whole _
  | stop _ b hc ho =>
    rw [← List.append_assoc]
    exact .stop _ b hc ho

namespace ReadsOutline

variable {s : Scope} {t name opener : Token} {rest : List Token}

theorem nil : ReadsOutline s [] := by
  intro depth es _ h
  have hes : es = [] := by simpa [Outline.of, Scope.entries] using h.symm
  exact ⟨[], [], by simpa using hes, .nil _, by simp [Node.Within], .whole _⟩

theorem closer (hc : t.isOperator ")" = true) : ReadsOutline s (t :: rest) := by
  intro depth es _ h
  rw [Outline.of_closer hc] at h ⊢
  have hes : es = [] := by simpa [Scope.entries] using h.symm
  exact ⟨[], [], by simpa using hes, .nil _, by simp [Node.Within], .stop [] ⟨t, rest, _⟩ hc rfl⟩

theorem group (ho : opener.isOperator "(" = true) (ih : ∀ us, us.length ≤ rest.length → ReadsOutline s us) :
    ReadsOutline s (opener :: rest) := by
  intro depth es hdepth h
  obtain ⟨items, breaks, hof⟩ := Outline.exists_group ho rest
  rw [hof] at h ⊢
  obtain ⟨inner, hinner, more, hmore, rfl⟩ := Scope.entries_group_ok_iff.1 h
  obtain ⟨pre, closer, after, mid, folded, d, rfl, hc, hafter, hd, hder, hfolds, rfl, hout⟩ :=
    Scope.group_ok ho (ih rest le_rfl) hof hinner
  obtain ⟨pre', ns, rfl, hder', hwithin, hends⟩ :=
    ih after (by simp; omega) depth more hdepth (by rw [hafter]; exact hmore)
  rw [hafter] at hends
  refine ⟨opener :: (pre ++ closer :: pre'), folded ++ ns, by simp, ?_, ?_, ?_⟩
  · rw [hd] at hder' ⊢
    exact .group ho hc hder hfolds hder'
  · exact List.forall_mem_append.2 ⟨hout, hwithin⟩
  · simpa using hends.cons (opener :: (pre ++ [closer]))

theorem call (hname : name.isFunction = true) (ho : opener.isOperator "(" = true)
    (ih : ∀ us, us.length ≤ rest.length → ReadsOutline s us) : ReadsOutline s (name :: opener :: rest) := by
  intro depth es hdepth h
  obtain ⟨items, breaks, hof⟩ := Outline.exists_group ho rest
  rw [Outline.of_function hname, hof, Outline.pushToken_group hname] at h ⊢
  obtain ⟨args, hargs, entry, hentry, more, hmore, rfl⟩ := Scope.entries_call_ok_iff.1 h
  obtain ⟨pre, closer, after, mid, folded, d, rfl, hc, hafter, hd, hder, hfolds, rfl, hout⟩ :=
    Scope.group_ok ho (ih rest le_rfl) hof hargs
  obtain ⟨rfl, hle⟩ := Scope.callEntry_ok_iff.1 hentry
  obtain ⟨pre', ns, rfl, hder', hwithin, hends⟩ :=
    ih after (by simp; omega) depth more hdepth (by rw [hafter]; exact hmore)
  rw [hafter] at hends
  refine ⟨name :: opener :: (pre ++ closer :: pre'), .call name.text folded :: ns, by simp, ?_, ?_, ?_⟩
  · rw [hd] at hder' ⊢
    exact .call hname ho hc hder hfolds hder'
  · exact List.forall_mem_cons.2 ⟨hle, hwithin⟩
  · simpa using hends.cons (name :: opener :: (pre ++ [closer]))

theorem single (ho : t.isOperator "(" = false) (hc : t.isOperator ")" = false)
    (hcall : t.isFunction = true → ∀ u ∈ rest.head?, u.isOperator "(" = false) (ih : ReadsOutline s rest) :
    ReadsOutline s (t :: rest) := by
  intro depth es hdepth h
  rw [Outline.of_single ho hc hcall] at h ⊢
  cases hcomma : t.isOperator "," with
  | true =>
    rw [Scope.entries_comma hcomma] at h
    obtain ⟨pre, ns, rfl, hder, hwithin, hends⟩ := ih depth es hdepth h
    exact ⟨t :: pre, ns, rfl, .comma hcomma hder, hwithin, hends.cons [t]⟩
  | false =>
    obtain ⟨n, hn, more, hmore, rfl⟩ := (Scope.entries_token_ok_iff hcomma).1 h
    obtain ⟨pre, ns, rfl, hder, hwithin, hends⟩ := ih depth more hdepth hmore
    have hlevels := Scope.levels_tokenNode hn
    refine ⟨t :: pre, n :: ns, ?_, .token ?_ hn hder, ?_, hends.cons [t]⟩
    · simp [Entry.ofNode, Entry.flat, hlevels]
    · simp [Token.isPunctuation, ho, hc, hcomma]
    · exact List.forall_mem_cons.2 ⟨by omega, hwithin⟩

end ReadsOutline

/-- **What the parser reads is derived.** A group and a call leave two shorter lists, their contents and what follows the
closing parenthesis. -/
theorem Scope.readsOutline (s : Scope) (ts : List Token) : ReadsOutline s ts := by
  refine tokens_induction .nil ?_ ?_ ?_ ?_ ts
  · exact fun t rest hc => .closer hc
  · exact fun opener rest ho ih => .group ho ih
  · exact fun name opener rest hname ho ih => .call hname ho ih
  · exact fun t rest ho hc hcall ih => .single ho hc hcall ih

/-! ## From derivations to the parser -/

/-- the outline of `ts` is `items`, whatever follows -/
def OutlinedAs (ts : List Token) (items : List Item) (tail : List Token) : Prop :=
  Outline.of (ts ++ tail) = ⟨items ++ (Outline.of tail).items, (Outline.of tail).breaks⟩

theorem OutlinedAs.group {opener closer : Token} {inner ts tail : List Token} {body items : List Item}
    (ho : opener.isOperator "(" = true) (hc : closer.isOperator ")" = true)
    (hin : OutlinedAs inner body (closer :: (ts ++ tail))) (h : OutlinedAs ts items tail) :
    OutlinedAs (opener :: (inner ++ closer :: ts)) (.group ⟨opener, body, some closer⟩ :: items) tail := by
  unfold OutlinedAs at *
  rw [Outline.of_closer hc, h] at hin
  rw [List.cons_append, Outline.of_opener ho, List.append_assoc, List.cons_append, hin]
  simp [Outline.openGroup]

theorem OutlinedAs.call {name opener closer : Token} {inner ts tail : List Token} {body items : List Item}
    (hname : name.isFunction = true) (ho : opener.isOperator "(" = true) (hc : closer.isOperator ")" = true)
    (hin : OutlinedAs inner body (closer :: (ts ++ tail))) (h : OutlinedAs ts items tail) :
    OutlinedAs (name :: opener :: (inner ++ closer :: ts)) (.call name ⟨opener, body, some closer⟩ :: items) tail := by
  have hgroup := OutlinedAs.group ho hc hin h
  unfold OutlinedAs at *
  rw [List.cons_append, Outline.of_function hname, hgroup, List.cons_append, Outline.pushToken_group hname]
  rfl

theorem OutlinedAs.token {t : Token} {ts tail : List Token} {items : List Item} (ho : t.isOperator "(" = false)
    (hc : t.isOperator ")" = false) (hf : t.isFunction = false) (h : OutlinedAs ts items tail) :
    OutlinedAs (t :: ts) (.token t :: items) tail := by
  unfold OutlinedAs at *
  rw [List.cons_append, Outline.of_other ho hc, h, Outline.pushToken_of_not_function hf]
  rfl

/-- **What is derived is read by the parser**, whatever tokens follow -/
theorem Derives.entries {vars : List Variable} {limit d : Nat} {ts : List Token} {ns : List Node}
    (h : Derives vars d ts ns) {depth : Nat} (hdepth : depth + d ≤ limit) (hwithin : Node.Within limit ns)
    (tail : List Token) :
    ∃ items, OutlinedAs ts items tail ∧
      (Scope.entries ⟨vars, limit⟩ depth items).outcome = .ok (ns.map .ofNode) := by
  induction h generalizing depth tail with
  | nil d => exact ⟨[], rfl, by simp [Scope.entries]⟩
  | comma ht _ ih =>
    obtain ⟨items, hof, hes⟩ := ih hdepth hwithin tail
    refine ⟨_, .token ?_ ?_ ?_ hof, by rw [Scope.entries_comma ht]; exact hes⟩
    · rw [Token.isOperator_of_isOperator ht]; decide
    · rw [Token.isOperator_of_isOperator ht]; decide
    · by_contra hf
      rw [Bool.not_eq_false] at hf
      simp [Token.isOperator_of_isFunction hf] at ht
  | token ht hn _ ih =>
    obtain ⟨-, hrest⟩ := List.forall_mem_cons.1 hwithin
    obtain ⟨items, hof, hes⟩ := ih hdepth hrest tail
    simp only [Token.isPunctuation, Bool.or_eq_false_iff] at ht
    refine ⟨_, .token ht.1.1 ht.1.2 (Scope.isFunction_tokenNode hn) hof, ?_⟩
    rw [Scope.entries_token_ok_iff ht.2]
    exact ⟨_, hn, _, hes, by simp [Entry.ofNode, Entry.flat, Scope.levels_tokenNode hn]⟩
  | group ho hc _ hf _ ihin ih =>
    obtain ⟨hfolded, hrest⟩ := List.forall_mem_append.1 hwithin
    obtain ⟨items, hof, hes⟩ := ih hdepth hrest tail
    obtain ⟨body, hbody, hinner⟩ := ihin (show depth + 1 + _ ≤ limit by omega) (hf.within hfolded) (_ :: (_ ++ tail))
    refine ⟨_, .group ho hc hbody hof, ?_⟩
    rw [Scope.entries_group_ok_iff]
    refine ⟨_, Scope.groupEntries_ok_iff.2 ⟨?_, rfl, _, hinner, hf.outcome hfolded⟩, _, hes, by simp⟩
    show depth + 1 ≤ limit
    omega
  | @call _ _ _ _ _ _ _ folded _ hname ho hc _ hf _ ihin ih =>
    obtain ⟨hcall, hrest⟩ := List.forall_mem_cons.1 hwithin
    have hfolded : Node.Within limit folded := by
      rw [Node.levels_call] at hcall
      exact Node.mostLevels_le_iff.1 (by omega)
    obtain ⟨items, hof, hes⟩ := ih hdepth hrest tail
    obtain ⟨body, hbody, hinner⟩ := ihin (show depth + 1 + _ ≤ limit by omega) (hf.within hfolded) (_ :: (_ ++ tail))
    refine ⟨_, .call hname ho hc hbody hof, ?_⟩
    rw [Scope.entries_call_ok_iff]
    refine ⟨_, Scope.groupEntries_ok_iff.2 ⟨?_, rfl, _, hinner, hf.outcome hfolded⟩, _,
      Scope.callEntry_ok_iff.2 ⟨rfl, hcall⟩, _, hes, by simp⟩
    show depth + 1 ≤ limit
    omega

/-! ## Whole formulas -/

theorem Scope.single_ok_iff {es : List Entry} {t : Node} : single es = .ok t ↔ ∃ e, es = [e] ∧ e.node = t := by
  match es with
  | [] => simp [single]
  | [e] => simp [single]
  | _ :: _ :: _ => simp [single]

theorem Scope.parse_ok_iff {s : Scope} {ts : List Token} {t : Node} :
    s.parse ts = .ok t ↔
      (Outline.of ts).breaks = [] ∧ ∃ es, (s.entries 0 (Outline.of ts).items).outcome = .ok es ∧
        ∃ folded, (foldLevels s.maxDepth precedence es).outcome = .ok folded ∧ single folded = .ok t := by
  unfold parse trace
  cases hb : (Outline.of ts).breaks <;> simp [bind_eq_ok_iff, hb]

/-- **Parsing is derivation.** A token list parses to a tree exactly if it derives trees that fold to this one, with
groups nested no deeper than the limit and no more levels than the limit. -/
theorem parse_eq_ok_iff {vars : List Variable} {limit : Nat} {ts : List Token} {t : Node} :
    Scope.parse ⟨vars, limit⟩ ts = .ok t ↔
      t.levels ≤ limit ∧ ∃ ns, Derives vars limit ts ns ∧ Folds precedence ns [t] := by
  rw [Scope.parse_ok_iff]
  constructor
  · rintro ⟨hbreaks, es, hes, folded, hfolded, hsingle⟩
    obtain ⟨pre, ns, rfl, hder, hwithin, hends⟩ := Scope.readsOutline ⟨vars, limit⟩ ts 0 es (Nat.zero_le _) hes
    obtain ⟨out, rfl, hfolds, hout⟩ := foldLevels_ok hwithin hfolded
    obtain ⟨e, he, rfl⟩ := Scope.single_ok_iff.1 hsingle
    obtain ⟨t, rfl, rfl⟩ := List.map_eq_singleton_iff.1 he
    rw [hbreaks] at hends
    cases hends
    exact ⟨hout t List.mem_cons_self, ns, hder, hfolds⟩
  · rintro ⟨hlevels, ns, hder, hfolds⟩
    have hout : Node.Within limit [t] := by simpa [Node.Within] using hlevels
    obtain ⟨items, hof, hes⟩ := hder.entries (show 0 + limit ≤ limit by omega) (hfolds.within hout) []
    have hof' : Outline.of ts = ⟨items, []⟩ := by simpa [OutlinedAs, Outline.of] using hof
    rw [hof']
    exact ⟨rfl, _, hes, _, hfolds.outcome hout, Scope.single_ok_iff.2 ⟨_, rfl, rfl⟩⟩

end Formula
