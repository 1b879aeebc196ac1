/-
Folding as a relation on trees.

`foldLevels` works on entries, which carry a height, and stops at a limit. Neither matters for what the result is: the
height of an entry is the number of levels of its tree (`Node.levels`), and the limit only cuts off. `Folds` says what
folding does to a list of trees with both left out; `foldLevels_ok` and `Folds.outcome` say that folding under a limit
is this relation, as long as no tree has more levels than the limit.
-/
import Mathlib.Tactic
import Formula.Parsing.Entry

namespace Formula

/-- a sequence succeeds exactly if both of its parts do -/
theorem bind_eq_ok_iff {ε α β : Type} {x : Except ε α} {f : α → Except ε β} {b : β} :
    x >>= f = .ok b ↔ ∃ a, x = .ok a ∧ f a = .ok b := by
  cases x <;> simp [bind, Except.bind]

/-- a sequence fails exactly as its first part, or as its second part if that is reached -/
theorem bind_eq_error_iff {ε α β : Type} {x : Except ε α} {f : α → Except ε β} {e : ε} :
    x >>= f = .error e ↔ x = .error e ∨ ∃ a, x = .ok a ∧ f a = .error e := by
  cases x <;> simp [bind, Except.bind]

theorem mapError_eq_ok_iff {ε δ α : Type} {x : Except ε α} {f : ε → δ} {a : α} : x.mapError f = .ok a ↔ x = .ok a := by
  cases x <;> simp [Except.mapError]

theorem Traced.outcome_bind_eq_ok {ε α β : Type} {t : Traced ε α} {f : α → Traced ε β} {b : β} :
    (t >>= f).outcome = .ok b ↔ ∃ a, t.outcome = .ok a ∧ (f a).outcome = .ok b := by
  rw [Traced.outcome_bind, bind_eq_ok_iff]

/-! ## Functions of trees -/

mutual

/-- a function of trees from the leaves up: `single` says what it is for a node with one text and nothing else, `join`
what it is for any other node, given what it is for the nested nodes -/
def Node.bottomUp {α : Type} (single : String → String → α) (join : String → List α → α) : Node → α
  | ⟨tag, args⟩ =>
    match (Node.mk tag args).value? with
    | some text => single tag text
    | none => join tag (Arg.bottomUp single join args)

/-- the same function on the nodes of an argument list -/
def Arg.bottomUp {α : Type} (single : String → String → α) (join : String → List α → α) : List Arg → List α
  | [] => []
  | .value _ :: rest => Arg.bottomUp single join rest
  | .node n :: rest => n.bottomUp single join :: Arg.bottomUp single join rest

end

namespace Node

section BottomUp

variable {α : Type} {single : String → String → α} {join : String → List α → α}

theorem bottomUp_of_value? {n : Node} {text : String} (h : n.value? = some text) :
    n.bottomUp single join = single n.tag text := by
  rcases n with ⟨tag, args⟩
  rw [bottomUp, h]

theorem bottomUp_value (tag text : String) : bottomUp single join ⟨tag, [.value text]⟩ = single tag text :=
  bottomUp_of_value? rfl

theorem bottomUp_args (nodes : List Node) :
    Arg.bottomUp single join (nodes.map Arg.node) = nodes.map (bottomUp single join) := by
  induction nodes with
  | nil => rw [List.map_nil, List.map_nil, Arg.bottomUp]
  | cons n nodes ih => rw [List.map_cons, List.map_cons, Arg.bottomUp, ih]

theorem bottomUp_call (name : String) (args : List Node) :
    (call name args).bottomUp single join = join name (args.map (bottomUp single join)) := by
  have hvalue : (call name args).value? = none := by
    rcases args with _ | ⟨n, args⟩ <;> rfl
  rw [call] at hvalue ⊢
  rw [bottomUp, hvalue, bottomUp_args]

theorem bottomUp_binary (operator : String) (left right : Node) :
    (binary operator left right).bottomUp single join =
      join operator [left.bottomUp single join, right.bottomUp single join] :=
  bottomUp_call operator [left, right]

end BottomUp

/-! ## Levels -/

/-- how many calls and operations are nested in a tree; a leaf or a placeholder counts 0 -/
def levels : Node → Nat := bottomUp (fun _ _ => 0) fun _ parts => 1 + parts.foldr max 0

/-- the most levels among some trees -/
def mostLevels (nodes : List Node) : Nat := nodes.foldr (fun n h => max n.levels h) 0

/-- no tree of the list has more than `limit` levels -/
def Within (limit : Nat) (nodes : List Node) : Prop := ∀ n ∈ nodes, n.levels ≤ limit

@[simp]
theorem levels_value (tag text : String) : levels ⟨tag, [.value text]⟩ = 0 := bottomUp_value _ _

@[simp]
theorem levels_leaf (kind : LeafKind) (text : String) : (leaf kind text).levels = 0 := levels_value _ _

@[simp]
theorem levels_placeholder (text : String) : (placeholder text).levels = 0 := levels_value _ _

@[simp]
theorem levels_call (name : String) (args : List Node) : (call name args).levels = 1 + mostLevels args := by
  rw [levels, bottomUp_call, List.foldr_map]
  rfl

@[simp]
theorem levels_binary (operator : String) (left right : Node) :
    (binary operator left right).levels = 1 + max left.levels right.levels := by
  rw [levels, bottomUp_binary]
  simp

theorem mostLevels_le_iff {nodes : List Node} {limit : Nat} : mostLevels nodes ≤ limit ↔ Within limit nodes := by
  induction nodes with
  | nil => simp [mostLevels, Within]
  | cons n nodes ih =>
    simp only [Within, mostLevels, List.foldr_cons, List.forall_mem_cons] at ih ⊢
    rw [← ih]
    omega

end Node

/-- the entry of a tree: its height is the number of levels -/
def Entry.ofNode (n : Node) : Entry := ⟨n, n.levels⟩

theorem tallest_map_ofNode (nodes : List Node) : tallest (nodes.map Entry.ofNode) = Node.mostLevels nodes := by
  induction nodes with
  | nil => rfl
  | cons n nodes ih =>
    simp only [tallest, Node.mostLevels, List.map_cons, List.foldr_cons, Entry.ofNode] at ih ⊢
    rw [ih]

/-! ## The relation -/

/-- a placeholder of one of the given operators -/
def Node.isOperator (operators : List String) (n : Node) : Bool := n.isPlaceholder && operators.contains n.tag

/-- an operator to be folded is a placeholder, so it has no levels -/
theorem Node.levels_of_isOperator {operators : List String} {n : Node} (hn : n.isOperator operators = true) :
    n.levels = 0 := by
  simp only [isOperator, isPlaceholder, Bool.and_eq_true] at hn
  obtain ⟨text, htext⟩ := Option.isSome_iff_exists.1 hn.1.2
  exact bottomUp_of_value? htext

/-- folding one level over what follows the tree `left` -/
inductive FoldsFrom (operators : List String) : Node → List Node → List Node → Prop where
  | done (left : Node) : FoldsFrom operators left [] [left]
  | take {left op right : Node} {rest out : List Node} (hop : op.isOperator operators = true)
      (h : FoldsFrom operators (.binary op.tag left right) rest out) :
      FoldsFrom operators left (op :: right :: rest) out
  | keep {left n : Node} {rest out : List Node} (hn : n.isOperator operators = false)
      (h : FoldsFrom operators n rest out) : FoldsFrom operators left (n :: rest) (left :: out)

/-- folding one level -/
inductive FoldsLevel (operators : List String) : List Node → List Node → Prop where
  | nil : FoldsLevel operators [] []
  | cons {n : Node} {rest out : List Node} (hn : n.isOperator operators = false)
      (h : FoldsFrom operators n rest out) : FoldsLevel operators (n :: rest) out

/-- folding some levels, one after the other -/
inductive Folds : List (List String) → List Node → List Node → Prop where
  | nil (nodes : List Node) : Folds [] nodes nodes
  | cons {operators : List String} {levels : List (List String)} {nodes mid out : List Node}
      (h : FoldsLevel operators nodes mid) (hs : Folds levels mid out) : Folds (operators :: levels) nodes out

/-! ## What a limit changes -/

theorem combine_ok_iff {limit : Nat} {operator : String} {left right : Node} {e : Entry} :
    (combine limit operator (.ofNode left) (.ofNode right)).outcome = .ok e ↔
      e = .ofNode (.binary operator left right) ∧ (Node.binary operator left right).levels ≤ limit := by
  have hheight : (Entry.ofNode (.binary operator left right)) =
      ⟨.binary operator left right, 1 + max left.levels right.levels⟩ := by
    rw [Entry.ofNode, Node.levels_binary]
  rw [hheight, Node.levels_binary]
  simp only [combine]
  split_ifs with h
  · exact iff_of_false (by simp) fun hle => absurd hle.2 (not_le.2 h)
  · have hle : 1 + max left.levels right.levels ≤ limit := not_lt.1 h
    rw [Traced.outcome_bind_eq_ok, and_iff_left hle]
    simp [Entry.ofNode, eq_comm]

section Equations

variable {limit : Nat} {operators : List String} {left right e : Entry} {rest : List Entry}

theorem foldFrom_operator (he : e.isOperator operators = true) :
    foldFrom limit operators left (e :: right :: rest) =
      combine limit e.node.tag left right >>= fun whole => foldFrom limit operators whole rest := by
  rw [foldFrom.eq_def]
  exact if_pos he

theorem foldFrom_dangling (he : e.isOperator operators = true) :
    foldFrom limit operators left [e] = .fail (.missingOperand e.node.tag .right) := by
  rw [foldFrom.eq_def]
  exact if_pos he

theorem foldFrom_operand (he : e.isOperator operators = false) :
    foldFrom limit operators left (e :: rest) =
      foldFrom limit operators e rest >>= fun folded => pure (left :: folded) := by
  rw [foldFrom.eq_def]
  exact if_neg (by simp [he])

theorem foldLevel_operator (he : e.isOperator operators = true) :
    foldLevel limit operators (e :: rest) = .fail (.missingOperand e.node.tag .left) :=
  if_pos he

theorem foldLevel_operand (he : e.isOperator operators = false) :
    foldLevel limit operators (e :: rest) = foldFrom limit operators e rest :=
  if_neg (by simp [he])

end Equations

/-- folding under a limit yields a fold within the limit -/
theorem foldFrom_ok {limit : Nat} {operators : List String} {left : Node} {nodes : List Node} {es : List Entry}
    (hin : Node.Within limit (left :: nodes))
    (h : (foldFrom limit operators (.ofNode left) (nodes.map .ofNode)).outcome = .ok es) :
    ∃ out, es = out.map .ofNode ∧ FoldsFrom operators left nodes out ∧ Node.Within limit out := by
  match nodes with
  | [] =>
    simp only [List.map_nil, foldFrom, Traced.outcome_pure, Except.ok.injEq] at h
    exact ⟨[left], h.symm, .done left, hin⟩
  | n :: rest =>
    rw [List.map_cons] at h
    cases hn : n.isOperator operators with
    | true =>
      match rest with
      | [] => simp [foldFrom_dangling (e := .ofNode n) hn] at h
      | right :: rest =>
        rw [List.map_cons, foldFrom_operator (e := .ofNode n) hn, Traced.outcome_bind_eq_ok] at h
        obtain ⟨whole, hwhole, h⟩ := h
        obtain ⟨rfl, hle⟩ := combine_ok_iff.1 hwhole
        have hin' : Node.Within limit (.binary n.tag left right :: rest) :=
          List.forall_mem_cons.2 ⟨hle, fun x hx => hin x (by simp [hx])⟩
        obtain ⟨out, rfl, hfold, hout⟩ := foldFrom_ok hin' h
        exact ⟨out, rfl, .take hn hfold, hout⟩
    | false =>
      rw [foldFrom_operand (e := .ofNode n) hn, Traced.outcome_bind_eq_ok] at h
      obtain ⟨folded, hfolded, h⟩ := h
      obtain ⟨out, rfl, hfold, hout⟩ := foldFrom_ok (fun x hx => hin x (List.mem_cons_of_mem _ hx)) hfolded
      simp only [Traced.outcome_pure, Except.ok.injEq] at h
      refine ⟨left :: out, h.symm, .keep hn hfold, ?_⟩
      exact List.forall_mem_cons.2 ⟨hin left List.mem_cons_self, hout⟩

theorem foldLevel_ok {limit : Nat} {operators : List String} {nodes : List Node} {es : List Entry}
    (hin : Node.Within limit nodes) (h : (foldLevel limit operators (nodes.map .ofNode)).outcome = .ok es) :
    ∃ out, es = out.map .ofNode ∧ FoldsLevel operators nodes out ∧ Node.Within limit out := by
  match nodes with
  | [] =>
    simp only [List.map_nil, foldLevel, Traced.outcome_pure, Except.ok.injEq] at h
    exact ⟨[], h.symm, .nil, hin⟩
  | n :: rest =>
    rw [List.map_cons] at h
    cases hn : n.isOperator operators with
    | true => simp [foldLevel_operator (e := .ofNode n) hn] at h
    | false =>
      rw [foldLevel_operand (e := .ofNode n) hn] at h
      obtain ⟨out, rfl, hfold, hout⟩ := foldFrom_ok hin h
      exact ⟨out, rfl, .cons hn hfold, hout⟩

theorem foldLevels_ok {limit : Nat} {levels : List (List String)} {nodes : List Node} {es : List Entry}
    (hin : Node.Within limit nodes) (h : (foldLevels limit levels (nodes.map .ofNode)).outcome = .ok es) :
    ∃ out, es = out.map .ofNode ∧ Folds levels nodes out ∧ Node.Within limit out := by
  induction levels generalizing nodes with
  | nil =>
    simp only [foldLevels, Traced.outcome_pure, Except.ok.injEq] at h
    exact ⟨nodes, h.symm, .nil nodes, hin⟩
  | cons operators levels ih =>
    rw [foldLevels, Traced.outcome_bind_eq_ok] at h
    obtain ⟨folded, hfolded, h⟩ := h
    obtain ⟨mid, rfl, hmid, hwithin⟩ := foldLevel_ok hin hfolded
    obtain ⟨out, rfl, hfold, hout⟩ := ih hwithin h
    exact ⟨out, rfl, .cons hmid hfold, hout⟩

/-- what a fold starts from has no more levels than what it yields -/
theorem FoldsFrom.within {limit : Nat} {operators : List String} {left : Node} {nodes out : List Node}
    (h : FoldsFrom operators left nodes out) (hout : Node.Within limit out) : Node.Within limit (left :: nodes) := by
  induction h with
  | done left => exact hout
  | take hop _ ih =>
    obtain ⟨hwhole, hrest⟩ := List.forall_mem_cons.1 (ih hout)
    rw [Node.levels_binary] at hwhole
    have hop' := Node.levels_of_isOperator hop
    refine List.forall_mem_cons.2 ⟨by omega, List.forall_mem_cons.2 ⟨by omega, List.forall_mem_cons.2 ⟨by omega, hrest⟩⟩⟩
  | keep _ _ ih =>
    obtain ⟨hleft, hout⟩ := List.forall_mem_cons.1 hout
    exact List.forall_mem_cons.2 ⟨hleft, ih hout⟩

theorem FoldsLevel.within {limit : Nat} {operators : List String} {nodes out : List Node}
    (h : FoldsLevel operators nodes out) (hout : Node.Within limit out) : Node.Within limit nodes := by
  cases h with
  | nil => exact hout
  | cons _ h => exact h.within hout

theorem Folds.within {limit : Nat} {levels : List (List String)} {nodes out : List Node}
    (h : Folds levels nodes out) (hout : Node.Within limit out) : Node.Within limit nodes := by
  induction h with
  | nil nodes => exact hout
  | cons h _ ih => exact h.within (ih hout)

/-- a fold within the limit is found under the limit -/
theorem FoldsFrom.outcome {limit : Nat} {operators : List String} {left : Node} {nodes out : List Node}
    (h : FoldsFrom operators left nodes out) (hout : Node.Within limit out) :
    (foldFrom limit operators (.ofNode left) (nodes.map .ofNode)).outcome = .ok (out.map .ofNode) := by
  induction h with
  | done left => rfl
  | take hop h ih =>
    have hle := (h.within hout) _ List.mem_cons_self
    rw [List.map_cons, List.map_cons, foldFrom_operator (e := .ofNode _) hop, Traced.outcome_bind_eq_ok]
    exact ⟨_, combine_ok_iff.2 ⟨rfl, hle⟩, ih hout⟩
  | keep hn h ih =>
    rw [List.map_cons, foldFrom_operand (e := .ofNode _) hn, Traced.outcome_bind_eq_ok]
    exact ⟨_, ih fun x hx => hout x (List.mem_cons_of_mem _ hx), rfl⟩

theorem FoldsLevel.outcome {limit : Nat} {operators : List String} {nodes out : List Node}
    (h : FoldsLevel operators nodes out) (hout : Node.Within limit out) :
    (foldLevel limit operators (nodes.map .ofNode)).outcome = .ok (out.map .ofNode) := by
  cases h with
  | nil => rfl
  | cons hn h =>
    rw [List.map_cons, foldLevel_operand (e := .ofNode _) hn]
    exact h.outcome hout

theorem Folds.outcome {limit : Nat} {levels : List (List String)} {nodes out : List Node}
    (h : Folds levels nodes out) (hout : Node.Within limit out) :
    (foldLevels limit levels (nodes.map .ofNode)).outcome = .ok (out.map .ofNode) := by
  induction h with
  | nil nodes => rfl
  | cons h hs ih =>
    rw [foldLevels, Traced.outcome_bind_eq_ok]
    exact ⟨_, h.outcome (hs.within hout), ih hout⟩

/-! ## What folding keeps -/

theorem Node.tag_mem_of_isOperator {operators : List String} {n : Node} (hn : n.isOperator operators = true) :
    n.tag ∈ operators := by
  simp only [isOperator, Bool.and_eq_true, List.contains_iff_mem] at hn
  exact hn.2

@[simp]
theorem Node.isOperator_binary (operators : List String) (op : String) (left right : Node) :
    (binary op left right).isOperator operators = false := by
  simp [isOperator, isPlaceholder, value?, binary]

@[simp]
theorem Node.isOperator_call (operators : List String) (name : String) (args : List Node) :
    (call name args).isOperator operators = false := by
  rcases args with _ | ⟨n, args⟩ <;> simp [isOperator, isPlaceholder, value?, call]

section Keep

variable {P : Node → Prop}

/-- a property of all trees that operations keep is a property of what is folded -/
theorem FoldsFrom.forall_mem {operators : List String} {left : Node} {nodes out : List Node}
    (hP : ∀ op ∈ operators, ∀ l r, P l → P r → P (.binary op l r)) (h : FoldsFrom operators left nodes out)
    (hin : ∀ n ∈ left :: nodes, P n) : ∀ n ∈ out, P n := by
  induction h with
  | done left => exact hin
  | take hop _ ih =>
    refine ih (List.forall_mem_cons.2 ⟨hP _ (Node.tag_mem_of_isOperator hop) _ _ (hin _ ?_) (hin _ ?_), ?_⟩)
    · simp
    · simp
    · exact fun n hn => hin n (by simp [hn])
  | keep _ _ ih =>
    obtain ⟨hleft, hrest⟩ := List.forall_mem_cons.1 hin
    exact List.forall_mem_cons.2 ⟨hleft, ih hrest⟩

theorem FoldsLevel.forall_mem {operators : List String} {nodes out : List Node}
    (hP : ∀ op ∈ operators, ∀ l r, P l → P r → P (.binary op l r)) (h : FoldsLevel operators nodes out)
    (hin : ∀ n ∈ nodes, P n) : ∀ n ∈ out, P n := by
  cases h with
  | nil => exact hin
  | cons _ h => exact h.forall_mem hP hin

theorem Folds.forall_mem {levels : List (List String)} {nodes out : List Node}
    (hP : ∀ operators ∈ levels, ∀ op ∈ operators, ∀ l r, P l → P r → P (.binary op l r)) (h : Folds levels nodes out)
    (hin : ∀ n ∈ nodes, P n) : ∀ n ∈ out, P n := by
  induction h with
  | nil nodes => exact hin
  | cons h _ ih =>
    obtain ⟨hfirst, hrest⟩ := List.forall_mem_cons.1 hP
    exact ih hrest (h.forall_mem hfirst hin)

end Keep

/-- folding one level leaves none of its operators standing -/
theorem FoldsFrom.no_operator {operators : List String} {left : Node} {nodes out : List Node}
    (h : FoldsFrom operators left nodes out) (hleft : left.isOperator operators = false) :
    ∀ n ∈ out, n.isOperator operators = false := by
  induction h with
  | done left => simpa using hleft
  | take _ _ ih => exact ih (Node.isOperator_binary _ _ _ _)
  | keep hn _ ih => exact List.forall_mem_cons.2 ⟨hleft, ih hn⟩

/-- **Operators are used up.** After folding, no operator of a folded level stands alone in the list. -/
theorem Folds.no_operator {levels : List (List String)} {nodes out : List Node} (h : Folds levels nodes out) :
    ∀ operators ∈ levels, ∀ n ∈ out, n.isOperator operators = false := by
  induction h with
  | nil nodes => simp
  | cons h hs ih =>
    refine List.forall_mem_cons.2 ⟨?_, ih⟩
    -- later levels build operations only, and an operation is no placeholder
    refine hs.forall_mem (fun _ _ _ _ _ _ _ _ => Node.isOperator_binary _ _ _ _) ?_
    cases h with
    | nil => simp
    | cons hn h => exact h.no_operator hn

/-- without operators there is nothing to fold -/
theorem FoldsFrom.of_no_operator {operators : List String} {left : Node} {nodes : List Node}
    (h : ∀ n ∈ nodes, n.isOperator operators = false) : FoldsFrom operators left nodes (left :: nodes) := by
  induction nodes generalizing left with
  | nil => exact .done left
  | cons n nodes ih =>
    obtain ⟨hn, hrest⟩ := List.forall_mem_cons.1 h
    exact .keep hn (ih hrest)

theorem Folds.of_no_operator {levels : List (List String)} {nodes : List Node}
    (h : ∀ operators ∈ levels, ∀ n ∈ nodes, n.isOperator operators = false) : Folds levels nodes nodes := by
  induction levels with
  | nil => exact .nil nodes
  | cons operators levels ih =>
    obtain ⟨hfirst, hrest⟩ := List.forall_mem_cons.1 h
    refine .cons ?_ (ih hrest)
    cases nodes with
    | nil => exact .nil
    | cons n nodes =>
      obtain ⟨hn, hnodes⟩ := List.forall_mem_cons.1 hfirst
      exact .cons hn (.of_no_operator hnodes)

end Formula
