/-
The arguments of a call do not meddle with each other.

The commas of a call are dropped before its operators are folded, so its arguments go through all passes in one list. No
operator reaches across a comma all the same: a list that folds by itself has an operand at each end whenever a pass goes
over it, so lists that fold by themselves fold side by side (`Folds.append`).

`parse_call`: token lists that parse by themselves, put between the parentheses of a call with commas between them, parse
to the call over their trees, under a limit larger by one.
-/
import Mathlib.Tactic
import Formula.Proofs.Precedence

namespace Formula

/-! ## Folding side by side -/

/-- a pass that comes to the end of a list goes on with the next one, whose first entry is no operator of the level -/
theorem FoldsFrom.append {operators : List String} {left : Node} {nodes out nodes' out' : List Node}
    (h : FoldsFrom operators left nodes out) (h' : FoldsLevel operators nodes' out') :
    FoldsFrom operators left (nodes ++ nodes') (out ++ out') := by
  induction h with
  | done left =>
    cases h' with
    | nil => exact .done left
    | cons hn h' => exact .keep hn h'
  | take hop _ ih => exact .take hop ih
  | keep hn _ ih => exact .keep hn ih

theorem FoldsLevel.append {operators : List String} {nodes out nodes' out' : List Node}
    (h : FoldsLevel operators nodes out) (h' : FoldsLevel operators nodes' out') :
    FoldsLevel operators (nodes ++ nodes') (out ++ out') := by
  cases h with
  | nil => exact h'
  | cons hn h => exact .cons hn (h.append h')

/-- **Lists that fold by themselves fold side by side** -/
theorem Folds.append {levels : List (List String)} {nodes out nodes' out' : List Node} (h : Folds levels nodes out)
    (h' : Folds levels nodes' out') : Folds levels (nodes ++ nodes') (out ++ out') := by
  induction h generalizing nodes' with
  | nil nodes =>
    cases h'
    exact .nil _
  | cons hlevel _ ih =>
    cases h' with
    | cons hlevel' h' => exact .cons (hlevel.append hlevel') (ih h')

/-! ## Arguments -/

/-- the tokens are these segments with a comma between each and the next -/
inductive Separated : List (List Token) → List Token → Prop where
  | none : Separated [] []
  | last (segment : List Token) : Separated [segment] segment
  | more (segment : List Token) {comma : Token} {next : List Token} {segments : List (List Token)} {ts : List Token}
      (hcomma : comma.isOperator "," = true) (h : Separated (next :: segments) ts) :
      Separated (segment :: next :: segments) (segment ++ comma :: ts)

/-- segments that parse by themselves derive, one after the other, what folds to their trees -/
theorem Separated.derives {vars : List Variable} {limit : Nat} {segments : List (List Token)} {ts : List Token}
    {nodes : List Node} (hts : Separated segments ts)
    (h : List.Forall₂ (fun segment n => Scope.parse ⟨vars, limit⟩ segment = .ok n) segments nodes) :
    ∃ ns, Derives vars limit ts ns ∧ Folds precedence ns nodes ∧ Node.Within limit nodes := by
  induction hts generalizing nodes with
  | none =>
    cases h
    exact ⟨[], .nil limit, .of_no_operator (by simp), by simp [Node.Within]⟩
  | last segment =>
    cases h with
    | cons hparse hnil =>
      cases hnil
      obtain ⟨hlevels, ns, hderives, hfolds⟩ := parse_eq_ok_iff.1 hparse
      exact ⟨ns, hderives, hfolds, by simpa [Node.Within] using hlevels⟩
  | more segment hcomma _ ih =>
    cases h with
    | cons hparse hmore =>
      obtain ⟨hlevels, ns, hderives, hfolds⟩ := parse_eq_ok_iff.1 hparse
      obtain ⟨ns', hderives', hfolds', hwithin⟩ := ih hmore
      exact ⟨ns ++ ns', hderives.append (.comma hcomma hderives'), hfolds.append hfolds',
        List.forall_mem_cons.2 ⟨hlevels, hwithin⟩⟩

/-- **Arguments are independent.** If some token lists parse by themselves under a limit, a call of any function with these
as its arguments parses under the next limit, to the call over their trees. -/
theorem parse_call {vars : List Variable} {limit : Nat} {name opener closer : Token} {segments : List (List Token)}
    {ts : List Token} {nodes : List Node} (hname : name.isFunction = true) (ho : opener.isOperator "(" = true)
    (hc : closer.isOperator ")" = true) (hts : Separated segments ts)
    (h : List.Forall₂ (fun segment n => Scope.parse ⟨vars, limit⟩ segment = .ok n) segments nodes) :
    Scope.parse ⟨vars, limit + 1⟩ (name :: opener :: (ts ++ [closer])) = .ok (.call name.text nodes) := by
  obtain ⟨ns, hderives, hfolds, hwithin⟩ := hts.derives h
  have hcall : Derives vars (limit + 1) (name :: opener :: (ts ++ [closer])) [.call name.text nodes] :=
    .call hname ho hc hderives hfolds (.nil _)
  have hlevels : (Node.call name.text nodes).levels ≤ limit + 1 := by
    have hmost := Node.mostLevels_le_iff.2 hwithin
    rw [Node.levels_call]
    omega
  exact parse_eq_ok_iff.2 ⟨hlevels, _, hcall, (Node.isOperand_call name.text nodes).folds⟩

/-- the tokens of `1 * +`, of `2, - 3` and of `ABS(x)` -/
def oddArguments : List (List Token) :=
  [[⟨.number, "1", .start⟩, ⟨.operator, "*", .start⟩, ⟨.operator, "+", .start⟩],
    [⟨.number, "2", .start⟩, ⟨.operator, ",", .start⟩, ⟨.operator, "-", .start⟩, ⟨.number, "3", .start⟩],
    [⟨.ident, "ABS", .start⟩, ⟨.operator, "(", .start⟩, ⟨.ident, "x", .start⟩, ⟨.operator, ")", .start⟩]]

/-- the tokens of `1 * +, 2, - 3, ABS(x)` -/
def oddList : List Token :=
  [⟨.number, "1", .start⟩, ⟨.operator, "*", .start⟩, ⟨.operator, "+", .start⟩, ⟨.operator, ",", .start⟩,
    ⟨.number, "2", .start⟩, ⟨.operator, ",", .start⟩, ⟨.operator, "-", .start⟩, ⟨.number, "3", .start⟩,
    ⟨.operator, ",", .start⟩,
    ⟨.ident, "ABS", .start⟩, ⟨.operator, "(", .start⟩, ⟨.ident, "x", .start⟩, ⟨.operator, ")", .start⟩]

/-- an argument that ends with an operator, and one that has a comma of its own -/
theorem parse_call_odd :
    Separated oddArguments oddList ∧
      Scope.parse ⟨[⟨"x", .number, "4"⟩], 2⟩
          (⟨.ident, "LTRIM", .start⟩ :: ⟨.operator, "(", .start⟩ :: (oddList ++ [⟨.operator, ")", .start⟩])) =
        .ok (.call "LTRIM" [.binary "*" (.number "1.000000") (.placeholder "+"),
          .binary "-" (.number "2.000000") (.number "3.000000"), .call "ABS" [.number "4.000000"]]) := by
  have hlist : Separated oddArguments oddList := .more _ rfl (.more _ rfl (.last _))
  have hparsed : List.Forall₂ (fun segment n => Scope.parse ⟨[⟨"x", .number, "4"⟩], 1⟩ segment = .ok n) oddArguments
      [.binary "*" (.number "1.000000") (.placeholder "+"), .binary "-" (.number "2.000000") (.number "3.000000"),
        .call "ABS" [.number "4.000000"]] :=
    .cons (by decide +kernel) (.cons (by decide +kernel) (.cons (by decide +kernel) .nil))
  exact ⟨hlist, parse_call (by decide) rfl rfl hlist hparsed⟩

end Formula
