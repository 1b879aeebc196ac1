/-
Which token an error is about.

A token can be at fault by itself: a function name without a `(` behind it, a name without a variable, or a number that is
refused, written out or as the value of a variable (`Token.Defective`). Groups are read from the inside out and folded on
the way, and still the tokens are looked at from left to right: what has been read has no defect (`Derives.sound`), and
reading stops at the first one (`Fails.first_defect`).

`parse_blames`: a list that parses has no defective token, and an error about a token is about the first defective one.
-/
import Mathlib.Tactic
import Formula.Proofs.Failure

namespace Formula

/-! ## Defects -/

/-- the token asks for a variable -/
def Token.NamesVariable (t : Token) : Prop := t.kind = .param ∨ t.kind = .ident ∧ isFunctionName t.text = false

/-- the token is at fault, with the token `next?` behind it, and this is the error about it -/
inductive Token.Defective (vars : List Variable) (t : Token) (next? : Option Token) : ParseError → Prop where
  | bare (hkind : t.kind = .ident) (hname : isFunctionName t.text = true)
      (hnext : ∀ u ∈ next?, u.isOperator "(" = false) : Defective vars t next? (.expectedParen t.text t.position)
  | undefined (hname : t.NamesVariable) (hnone : ∀ v ∈ vars, v.name ≠ t.text) :
      Defective vars t next? (.undefinedIdentifier t.text t.position)
  | literal (hkind : t.kind = .number) (hnone : canonicalize t.text = none) :
      Defective vars t next? (.invalidNumber t.text t.position)
  | value {v : Variable} (hname : t.NamesVariable) (hfirst : vars.find? (·.name == t.text) = some v)
      (hkind : v.kind = .number) (hnone : canonicalize v.value = none) :
      Defective vars t next? (.invalidNumber v.value t.position)

section Tokens

variable {vars : List Variable} {t : Token} {next? : Option Token} {e : ParseError}

theorem Token.NamesVariable.isFunction_eq_false (h : t.NamesVariable) : t.isFunction = false := by
  rcases h with hkind | ⟨hkind, hname⟩
  · simp [isFunction, hkind]
  · simp [isFunction, hname]

theorem Token.NamesVariable.tokenNode (h : t.NamesVariable) :
    Scope.tokenNode { vars } t = Scope.variableLeaf { vars } t := by
  unfold Scope.tokenNode
  rcases h with hkind | ⟨hkind, hname⟩
  · rw [hkind]
  · simp [hkind, hname]

theorem Token.NamesVariable.defective (h : t.NamesVariable) (herror : Scope.variableLeaf { vars } t = .error e) :
    t.Defective vars next? e := by
  unfold Scope.variableLeaf at herror
  split at herror
  · rename_i hfind
    obtain rfl := Except.error.inj herror
    have hnone : ∀ v ∈ vars, v.name ≠ t.text := by simpa [Scope.find?] using hfind
    exact .undefined h hnone
  · rename_i v hfind
    split at herror
    · rename_i hkind
      obtain ⟨hnone, rfl⟩ := Scope.numberLeaf_eq_error_iff.1 herror
      exact .value h hfind hkind hnone
    · cases herror

/-- **A token is defective if it gives no node**, unless it is a function name in front of its arguments -/
theorem Token.defective_iff :
    t.Defective vars next? e ↔ Scope.tokenNode { vars } t = .error e ∧
      (t.isFunction = true → ∀ u ∈ next?, u.isOperator "(" = false) := by
  constructor
  · intro h
    cases h with
    | bare hkind hname hnext =>
      have hfunction : t.isFunction = true := by simp [isFunction, hkind, hname]
      exact ⟨Scope.tokenNode_function hfunction, fun _ => hnext⟩
    | undefined hname hnone =>
      have hfind : Scope.find? { vars } t.text = none := by simpa [Scope.find?] using hnone
      refine ⟨?_, by simp [hname.isFunction_eq_false]⟩
      rw [hname.tokenNode, Scope.variableLeaf, hfind]
    | literal hkind hnone =>
      refine ⟨?_, by simp [isFunction, hkind]⟩
      rw [Scope.tokenNode, hkind]
      exact Scope.numberLeaf_eq_error_iff.2 ⟨hnone, rfl⟩
    | @value v hname hfirst hkind hnone =>
      have hfind : Scope.find? { vars } t.text = some v := hfirst
      refine ⟨?_, by simp [hname.isFunction_eq_false]⟩
      simp only [hname.tokenNode, Scope.variableLeaf, hfind, hkind]
      exact Scope.numberLeaf_eq_error_iff.2 ⟨hnone, rfl⟩
  · rintro ⟨herror, hnext⟩
    cases hkind : t.kind with
    | ident =>
      cases hname : isFunctionName t.text with
      | true =>
        have hfunction : t.isFunction = true := by simp [isFunction, hkind, hname]
        rw [Scope.tokenNode_function hfunction] at herror
        obtain rfl := Except.error.inj herror
        exact .bare hkind hname (hnext hfunction)
      | false =>
        have hnames : t.NamesVariable := .inr ⟨hkind, hname⟩
        exact hnames.defective (hnames.tokenNode ▸ herror)
    | param =>
      have hnames : t.NamesVariable := .inl hkind
      exact hnames.defective (hnames.tokenNode ▸ herror)
    | number =>
      rw [Scope.tokenNode, hkind] at herror
      obtain ⟨hnone, rfl⟩ := Scope.numberLeaf_eq_error_iff.1 herror
      exact .literal hkind hnone
    | string | operator | keyword =>
      rw [Scope.tokenNode, hkind] at herror
      cases herror

theorem Token.not_defective_of_ok {n : Node} (h : Scope.tokenNode { vars } t = .ok n) : ¬t.Defective vars next? e := by
  rw [defective_iff, h]
  simp

theorem Token.not_defective_of_operator {symbol : String} (h : t.isOperator symbol = true) :
    ¬t.Defective vars next? e := by
  have hnode : Scope.tokenNode { vars } t = .ok (.placeholder t.text) := by
    simp only [isOperator, Bool.and_eq_true, beq_iff_eq] at h
    rw [Scope.tokenNode, h.1]
  exact not_defective_of_ok hnode

theorem Token.not_defective_of_call {opener : Token} (h : t.isFunction = true) (ho : opener.isOperator "(" = true) :
    ¬t.Defective vars (some opener) e := by
  rw [defective_iff]
  rintro ⟨-, hnext⟩
  simp [hnext h opener rfl] at ho

end Tokens

/-! ## Token lists -/

/-- the token at index `i` of the list is at fault, and this is the error about it -/
def DefectAt (vars : List Variable) (ts : List Token) (i : Nat) (e : ParseError) : Prop :=
  ∃ t, ts[i]? = some t ∧ t.Defective vars ts[i + 1]? e

/-- the first `n` tokens of the list are not at fault -/
def SoundUpTo (vars : List Variable) (ts : List Token) (n : Nat) : Prop := ∀ i < n, ∀ e, ¬DefectAt vars ts i e

section Lists

variable {vars : List Variable} {t : Token} {ts : List Token} {e : ParseError}

theorem defectAt_zero : DefectAt vars (t :: ts) 0 e ↔ t.Defective vars ts.head? e := by
  simp [DefectAt, List.head?_eq_getElem?]

theorem defectAt_append (head ts : List Token) (i : Nat) :
    DefectAt vars (head ++ ts) (head.length + i) e ↔ DefectAt vars ts i e := by
  have hindex : head.length + i + 1 = head.length + (i + 1) := Nat.add_assoc _ _ _
  rw [DefectAt, DefectAt, hindex, List.getElem?_append_right (Nat.le_add_right _ _),
    List.getElem?_append_right (Nat.le_add_right _ _), Nat.add_sub_cancel_left, Nat.add_sub_cancel_left]

theorem SoundUpTo.zero : SoundUpTo vars ts 0 := by
  intro i hi
  omega

theorem SoundUpTo.cons {n : Nat} (ht : ∀ e, ¬t.Defective vars ts.head? e) (h : SoundUpTo vars ts n) :
    SoundUpTo vars (t :: ts) (n + 1) := by
  intro i hi e hdefect
  cases i with
  | zero => exact ht e (defectAt_zero.1 hdefect)
  | succ i => exact h i (Nat.lt_of_succ_lt_succ hi) e hdefect

/-- **What can be read has no defect**, whatever follows -/
theorem Derives.sound {depth : Nat} {ns : List Node} (h : Derives vars depth ts ns) {tail : List Token} {n : Nat}
    (htail : SoundUpTo vars tail n) : SoundUpTo vars (ts ++ tail) (ts.length + n) := by
  induction h generalizing tail n with
  | nil => simpa using htail
  | @comma _ t ts _ ht _ ih =>
    have hsound := SoundUpTo.cons (t := t) (fun e => Token.not_defective_of_operator ht) (ih htail)
    simpa [Nat.add_right_comm] using hsound
  | @token _ t _ ts _ _ hn _ ih =>
    have hsound := SoundUpTo.cons (t := t) (fun e => Token.not_defective_of_ok hn) (ih htail)
    simpa [Nat.add_right_comm] using hsound
  | @group _ opener closer inner ts _ _ _ ho hc _ _ _ ihin ih =>
    have hafter := SoundUpTo.cons (t := closer) (fun e => Token.not_defective_of_operator hc) (ih htail)
    have hsound := SoundUpTo.cons (t := opener) (fun e => Token.not_defective_of_operator ho) (ihin hafter)
    have hlength : (opener :: (inner ++ closer :: ts)).length + n = inner.length + (ts.length + n + 1) + 1 := by
      simp
      omega
    rw [hlength]
    simpa using hsound
  | @call _ name opener closer inner ts _ _ _ hname ho hc _ _ _ ihin ih =>
    have hafter := SoundUpTo.cons (t := closer) (fun e => Token.not_defective_of_operator hc) (ih htail)
    have hgroup := SoundUpTo.cons (t := opener) (fun e => Token.not_defective_of_operator ho) (ihin hafter)
    have hsound := SoundUpTo.cons (t := name) (fun e => Token.not_defective_of_call hname ho) hgroup
    have hlength : (name :: opener :: (inner ++ closer :: ts)).length + n =
        inner.length + (ts.length + n + 1) + 1 + 1 := by
      simp
      omega
    rw [hlength]
    simpa using hsound

/-- the error is raised for one token -/
def ParseError.IsAboutToken : ParseError → Prop
  | .expectedParen .. | .undefinedIdentifier .. | .invalidNumber .. => True
  | _ => False

theorem ParseError.IsAboutToken.isSome_position? (h : e.IsAboutToken) : e.position?.isSome := by
  cases e with
  | expectedParen | undefinedIdentifier | invalidNumber => rfl
  | _ => exact h.elim

/-- **Reading stops at the first defect** -/
theorem Fails.first_defect (h : Fails vars ts e) (habout : e.IsAboutToken) :
    ∃ i, SoundUpTo vars ts i ∧ DefectAt vars ts i e := by
  induction h with
  | token hcall hn => exact ⟨0, .zero, defectAt_zero.2 (Token.defective_iff.2 ⟨hn, hcall⟩)⟩
  | unclosed => exact habout.elim
  | inside ho _ ih =>
    obtain ⟨i, hsound, hdefect⟩ := ih habout
    exact ⟨i + 1, hsound.cons fun e => Token.not_defective_of_operator ho, hdefect⟩
  | arguments hname ho _ ih =>
    obtain ⟨i, hsound, hdefect⟩ := ih habout
    exact ⟨i + 1, hsound.cons fun e => Token.not_defective_of_call hname ho, hdefect⟩
  | @after _ head _ _ _ hhead _ ih =>
    obtain ⟨i, hsound, hdefect⟩ := ih habout
    exact ⟨head.length + i, hhead.sound hsound, (defectAt_append head _ i).2 hdefect⟩

theorem DefectAt.unique {i : Nat} {e' : ParseError} (h : DefectAt vars ts i e) (h' : DefectAt vars ts i e') : e' = e := by
  obtain ⟨t, ht, hdefect⟩ := h
  obtain ⟨t', ht', hdefect'⟩ := h'
  obtain rfl : t = t' := Option.some.inj (ht.symm.trans ht')
  exact Except.error.inj ((Token.defective_iff.1 hdefect').1.symm.trans (Token.defective_iff.1 hdefect).1)

end Lists

/-! ## Parsing -/

/-- **The leftmost offender is blamed.** In a token list that parses no token is at fault. If parsing fails for a missing
`(`, for a name or for a number, then the error is that of the first token at fault: with its name, or the number text that
was refused, and at its position. -/
theorem parse_blames (vars : List Variable) (limit : Nat) (ts : List Token) :
    (∀ tree, Scope.parse ⟨vars, limit⟩ ts = .ok tree → ∀ i e, ¬DefectAt vars ts i e) ∧
      ∀ e, Scope.parse ⟨vars, limit⟩ ts = .error e → e.IsAboutToken →
        ∃ i, IsLeast {i | ∃ e', DefectAt vars ts i e'} i ∧ ∀ e', DefectAt vars ts i e' ↔ e' = e := by
  constructor
  · intro tree h i e hdefect
    obtain ⟨-, ns, hderives, -⟩ := parse_eq_ok_iff.1 h
    have hsound : SoundUpTo vars ts ts.length := by simpa using hderives.sound (.zero : SoundUpTo vars [] 0)
    obtain ⟨t, ht, hdefective⟩ := hdefect
    exact hsound i (List.getElem?_eq_some_iff.1 ht).1 e ⟨t, ht, hdefective⟩
  · intro e h habout
    rcases Scope.parse_error habout.isSome_position? h with hfails | ⟨_, _, _, _, _, _, _, _, rfl⟩
    · obtain ⟨i, hsound, hdefect⟩ := hfails.first_defect habout
      refine ⟨i, ⟨⟨e, hdefect⟩, ?_⟩, fun e' => ⟨hdefect.unique, fun heq => heq ▸ hdefect⟩⟩
      rintro j ⟨e', hj⟩
      by_contra hlt
      exact hsound j (not_le.1 hlt) e' hj
    · exact habout.elim

/-- the tokens of `(1, ABS(x)) + ABS + y` -/
def offenders : List Token :=
  [⟨.operator, "(", ⟨0, 1, 1⟩⟩, ⟨.number, "1", ⟨1, 1, 2⟩⟩, ⟨.operator, ",", ⟨2, 1, 3⟩⟩, ⟨.ident, "ABS", ⟨4, 1, 5⟩⟩,
    ⟨.operator, "(", ⟨7, 1, 8⟩⟩, ⟨.ident, "x", ⟨8, 1, 9⟩⟩, ⟨.operator, ")", ⟨9, 1, 10⟩⟩, ⟨.operator, ")", ⟨10, 1, 11⟩⟩,
    ⟨.operator, "+", ⟨12, 1, 13⟩⟩, ⟨.ident, "ABS", ⟨14, 1, 15⟩⟩, ⟨.operator, "+", ⟨18, 1, 19⟩⟩, ⟨.ident, "y", ⟨20, 1, 21⟩⟩]

/-- a value that is no number inside a call is blamed before a bare function name and an undefined name behind the group;
with a number in its place the function name is blamed; and the call alone parses -/
theorem parse_blames_offenders :
    Scope.parse ⟨[⟨"x", .number, "two"⟩], 8⟩ offenders = .error (.invalidNumber "two" ⟨8, 1, 9⟩) ∧
      (∃ i, IsLeast {i | ∃ e', DefectAt [⟨"x", .number, "two"⟩] offenders i e'} i ∧
        ∀ e', DefectAt [⟨"x", .number, "two"⟩] offenders i e' ↔ e' = .invalidNumber "two" ⟨8, 1, 9⟩) ∧
      Scope.parse ⟨[⟨"x", .number, "2"⟩], 8⟩ offenders = .error (.expectedParen "ABS" ⟨14, 1, 15⟩) ∧
      (∃ i, IsLeast {i | ∃ e', DefectAt [⟨"x", .number, "2"⟩] offenders i e'} i ∧
        ∀ e', DefectAt [⟨"x", .number, "2"⟩] offenders i e' ↔ e' = .expectedParen "ABS" ⟨14, 1, 15⟩) ∧
      Scope.parse ⟨[⟨"x", .number, "2"⟩], 8⟩ ((offenders.drop 3).take 4) = .ok (.call "ABS" [.number "2.000000"]) ∧
      ∀ i e, ¬DefectAt [⟨"x", .number, "2"⟩] ((offenders.drop 3).take 4) i e := by
  have hvalue : Scope.parse ⟨[⟨"x", .number, "two"⟩], 8⟩ offenders = .error (.invalidNumber "two" ⟨8, 1, 9⟩) := by
    decide +kernel
  have hbare : Scope.parse ⟨[⟨"x", .number, "2"⟩], 8⟩ offenders = .error (.expectedParen "ABS" ⟨14, 1, 15⟩) := by
    decide +kernel
  have hcall : Scope.parse ⟨[⟨"x", .number, "2"⟩], 8⟩ ((offenders.drop 3).take 4) =
      .ok (.call "ABS" [.number "2.000000"]) := by
    decide +kernel
  exact ⟨hvalue, (parse_blames _ 8 _).2 _ hvalue trivial, hbare, (parse_blames _ 8 _).2 _ hbare trivial, hcall,
    (parse_blames _ 8 _).1 _ hcall⟩

end Formula
