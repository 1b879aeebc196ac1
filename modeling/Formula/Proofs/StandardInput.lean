/-
Formulas from standard input.

A formula that is not given as an argument is read from standard input, without the line ends at its end. Wherever these
stand, they leave no trace: behind a token they are blanks, a comment takes them in or is closed by them, and a string that
is open there stays open. So a text and the text without them are scanned alike (`Lexer.Reads.alike`), up to what an error
shows of the rest. All that is computed from a formula depends on its tokens only, the report of the formula itself apart.

A command line without a formula still takes one behind `--` (`readArguments_withFormula`). `run_piped`: it gives the same
answer then as for the same formula on standard input.
-/
import Mathlib.Tactic
import Formula.Proofs.LexicalErrors
import Formula.Proofs.Verbosity

namespace Formula

/-! ## Line ends -/

/-- newlines and carriage returns only -/
def LineEnds (cs : List Char) : Prop := ∀ c ∈ cs, c = '\n' ∨ c = '\r'

theorem LineEnds.isBlank {cs : List Char} (h : LineEnds cs) : ∀ c ∈ cs, Lexer.isBlank c = true := by
  intro c hc
  rcases h c hc with rfl | rfl <;> rfl

/-- the same fault at the same place; where nothing matches, the second error may show line ends behind what the first one
shows -/
inductive LexError.Alike : LexError → LexError → Prop where
  | unterminatedString (p : Position) : Alike (.unterminatedString p) (.unterminatedString p)
  | unconsumedInput (p : Position) (snippet : String) {ends : String} (hends : LineEnds ends.toList) :
      Alike (.unconsumedInput p snippet) (.unconsumedInput p (snippet ++ ends))

namespace TokenStream

/-- the same tokens, and then no error or the same fault -/
structure Alike (s s' : TokenStream) : Prop where
  tokens : s.tokens = s'.tokens
  error? : Option.Rel LexError.Alike s.error? s'.error?

variable {s s' : TokenStream}

theorem alike_nil : Alike ⟨[], none⟩ ⟨[], none⟩ := ⟨rfl, .none⟩

theorem Alike.push (h : s.Alike s') (t : Token) : (s.push t).Alike (s'.push t) :=
  ⟨congrArg (t :: ·) h.tokens, h.error?⟩

theorem Alike.failure {e e' : LexError} (h : e.Alike e') : (failure e).Alike (failure e') := ⟨rfl, .some h⟩

theorem Alike.toExcept_eq_ok_iff (h : s.Alike s') (ts : List Token) : s.toExcept = .ok ts ↔ s'.toExcept = .ok ts := by
  obtain ⟨tokens, error?⟩ := s
  obtain ⟨tokens', error?'⟩ := s'
  obtain ⟨rfl, herror⟩ := h
  cases herror with
  | none => rfl
  | some _ =>
    constructor
    · intro hok
      cases hok
    · intro hok
      cases hok

theorem Alike.toExcept_eq_error (h : s.Alike s') {e : LexError} (he : s'.toExcept = .error e) :
    ∃ e', s.toExcept = .error e' ∧ e'.Alike e := by
  obtain ⟨tokens, error?⟩ := s
  obtain ⟨tokens', error?'⟩ := s'
  obtain ⟨rfl, herror⟩ := h
  cases herror with
  | none => cases he
  | some hfault =>
    obtain rfl := Except.error.inj he
    exact ⟨_, rfl, hfault⟩

end TokenStream

/-! ## Scanning -/

namespace Lexer

variable {ends : List Char}

theorem scan_lineEnds (h : LineEnds ends) (p : Position) : scan 0 p ends = ⟨[], none⟩ := by
  induction ends generalizing p with
  | nil => rfl
  | cons c ends ih =>
    obtain ⟨-, hends⟩ := List.forall_mem_cons.1 h
    rw [scan_blank (h.isBlank c List.mem_cons_self), ih hends]

/-- line ends behind a comment that the text ends in: the first newline closes it, and if there is none it takes them all -/
theorem scan_comment_lineEnds {mark line : List Char} (hmark : mark ∈ commentMarks) (hline : '\n' ∉ line)
    (h : LineEnds ends) (p : Position) : scan 0 p (mark ++ line ++ ends) = ⟨[], none⟩ := by
  obtain ⟨more, hmore, rfl | ⟨rest, rfl⟩⟩ := exists_line ends
  · rw [List.append_assoc]
    exact scan_lastComment hmark (by simp [hline, hmore]) p
  · have hrest : LineEnds rest := fun c hc => h c (by simp [hc])
    have hjoined : mark ++ line ++ (more ++ '\n' :: rest) = mark ++ (line ++ more ++ '\n' :: rest) := by simp
    rw [hjoined, scan_comment hmark (by simp [hline, hmore]), scan_lineEnds hrest]

theorem front?_lineEnds {cs : List Char} (hne : cs ≠ []) (hfront : front? cs = none) (h : Delimited ends) :
    front? (cs ++ ends) = none := by
  have hwidth := (unmatched_of_front hfront).width
  have hblank : runLength isBlank cs = 0 := hwidth ⟨.blank, runLength isBlank⟩ (by simp [rules])
  have hcomment : commentWidth cs = 0 := hwidth ⟨.blank, commentWidth⟩ (by simp [rules])
  rw [front?_append hne hblank hcomment h, hfront]

/-- **Line ends at the end of a text change nothing but the snippet of an error.** By induction on the reading of the text
without them. -/
theorem Reads.alike {p : Position} {cs : List Char} {s : TokenStream} (h : Reads p cs s) (hends : LineEnds ends) :
    s.Alike (scan 0 p (cs ++ ends)) := by
  have hdelimited : Delimited ends := fun c hc => hends.isBlank c (List.mem_of_mem_head? hc)
  induction h with
  | done p =>
    rw [List.nil_append, scan_lineEnds hends]
    exact TokenStream.alike_nil
  | @blank p c cs s hc _ ih =>
    rw [List.cons_append, scan_blank hc]
    exact ih
  | @comment p mark line cs s hmark hline _ ih =>
    have hjoined : mark ++ (line ++ '\n' :: cs) ++ ends = mark ++ (line ++ '\n' :: (cs ++ ends)) := by simp
    rw [hjoined, scan_comment hmark hline]
    exact ih
  | @lastComment p mark line hmark hline =>
    rw [scan_comment_lineEnds hmark hline hends]
    exact TokenStream.alike_nil
  | @word p kind w cs s hw hfront _ ih =>
    rw [List.append_assoc, scan_token hw (front?_delimited hw hfront hdelimited)]
    exact ih.push _
  | @string p body cs s hbody _ ih =>
    have hjoined : quoteMark :: (body ++ quoteMark :: cs) ++ ends = quoteMark :: (body ++ quoteMark :: (cs ++ ends)) := by
      simp
    rw [hjoined, scan_string hbody]
    exact ih.push _
  | @unterminated p cs hopen =>
    have hquote : quoteMark ∉ ends := fun hmem => by rcases hends _ hmem with h | h <;> cases h
    rw [List.cons_append, scan_unterminated (by simp [hopen, hquote])]
    exact .failure (.unterminatedString p)
  | @unconsumed p cs hne hfront =>
    have hfront' := front?_lineEnds hne hfront hdelimited
    obtain ⟨c, cs, rfl⟩ := List.exists_cons_of_ne_nil hne
    have htake : LineEnds (String.ofList (ends.take (snippetLength - (c :: cs).length))).toList := by
      intro d hd
      rw [String.toList_ofList] at hd
      exact hends d (List.mem_of_mem_take hd)
    rw [List.cons_append] at hfront' ⊢
    rw [scan, hfront', ← List.cons_append, List.take_append, String.ofList_append]
    exact .failure (.unconsumedInput p _ htake)

end Lexer

/-! ## Formulas that are split alike -/

namespace Scope

variable {formula formula' : String}

theorem traceTree_congr (s : Scope) (h : tokenize formula = tokenize formula') :
    s.traceTree formula = s.traceTree formula' := by
  rw [traceTree, traceTree, h]

/-- the formulas are reported as they are, but the value is the same -/
theorem outcome_traceValue_congr (s : Scope) (h : tokenize formula = tokenize formula') :
    (s.traceValue formula).outcome = (s.traceValue formula').outcome := by
  simp only [traceValue, Traced.outcome_bind, Traced.outcome_report, s.traceTree_congr h]

end Scope

namespace CommandLine

theorem tokenRows_congr {formula formula' : String} (h : tokenize formula = tokenize formula') :
    tokenRows formula = tokenRows formula' := by
  rw [tokenRows, tokenRows, h]

theorem exists_lineEnds (text : String) : ∃ ends, text.toList = (dropLineEnds text).toList ++ ends ∧ LineEnds ends := by
  let isLineEnd : Char → Bool := fun c => c == '\n' || c == '\r'
  refine ⟨(text.toList.reverse.takeWhile isLineEnd).reverse, ?_, ?_⟩
  · rw [dropLineEnds, String.toList_ofList, ← List.reverse_append, List.takeWhile_append_dropWhile, List.reverse_reverse]
  · intro c hc
    have hlineEnd : isLineEnd c = true := List.mem_takeWhile_imp (List.mem_reverse.1 hc)
    simpa [isLineEnd] using hlineEnd

theorem alike_dropLineEnds (text : String) : (TokenStream.ofText (dropLineEnds text)).Alike (TokenStream.ofText text) := by
  obtain ⟨ends, htext, hends⟩ := exists_lineEnds text
  rw [TokenStream.ofText, TokenStream.ofText, htext]
  exact (Lexer.reads_scan _ _).alike hends

theorem tokenize_dropLineEnds {text : String} {ts : List Token} (h : tokenize text = .ok ts) :
    tokenize (dropLineEnds text) = tokenize text := by
  rw [h]
  exact ((alike_dropLineEnds text).toExcept_eq_ok_iff ts).2 h

/-! ## Commands -/

/-- the command with its formula as an argument -/
def Command.withFormula (formula : String) : Command → Command
  | .eval args => .eval { args with formula? := some formula }
  | .parse args pretty => .parse { args with formula? := some formula } pretty
  | .tokens _ => .tokens (some formula)
  | command => command

theorem readFormula_piped (text : String) : readFormula none (.piped text.toUTF8) = .ok (dropLineEnds text) := by
  have hread : String.fromUTF8? text.toUTF8 = some text := dif_pos text.isValidUTF8
  simp only [readFormula, hread]

theorem readFormula_given (text : String) (input : StandardInput) : readFormula (some text) input = .ok text := by
  simp only [readFormula]

/-- what is computed from scope and formula, and does not depend on the line ends, is the same either way -/
theorem readScope_bind {α : Type} {text : String} {args : FormulaArguments} (h : args.formula? = none)
    (input : StandardInput) {k : Scope × String → Except CommandError α}
    (hk : ∀ s, k (s, dropLineEnds text) = k (s, text)) :
    readScope args (.piped text.toUTF8) >>= k = readScope { args with formula? := some text } input >>= k := by
  have hvars : readVariables { args with formula? := some text } = readVariables args := by simp only [readVariables]
  simp only [readScope, h, hvars, readFormula_given, readFormula_piped]
  cases readVariables args with
  | error e => rfl
  | ok vars => exact hk ⟨vars, args.maxDepth⟩

/-- **A command gives the same answer to its input and to its argument** -/
theorem outcome_withFormula {text : String} (htokens : tokenize (dropLineEnds text) = tokenize text) {command : Command}
    (h : command.needsInput = true) (input : StandardInput) :
    (command.trace (.piped text.toUTF8)).outcome = ((command.withFormula text).trace input).outcome := by
  cases command with
  | eval args =>
    simp only [Command.withFormula, Command.trace, Traced.outcome_bind, Traced.outcome_ofExcept]
    refine readScope_bind (Option.isNone_iff_eq_none.1 h) input fun s => ?_
    simp only [Traced.outcome_mapError, s.outcome_traceValue_congr htokens]
  | parse args pretty =>
    simp only [Command.withFormula, Command.trace, Traced.outcome_bind, Traced.outcome_ofExcept]
    refine readScope_bind (Option.isNone_iff_eq_none.1 h) input fun s => ?_
    simp only [s.traceTree_congr htokens]
  | tokens formula? =>
    obtain rfl : formula? = none := Option.isNone_iff_eq_none.1 h
    simp only [Command.withFormula, Command.trace, Traced.outcome_ofExcept, readFormula_piped, readFormula_given, bind,
      Except.bind, tokenRows_congr htokens]
  | functions | docs | doc => cases h

/-- commands with the same answer differ in their reports at most -/
theorem Invocation.outcome_congr (w : Wording) {command command' : Command} {input input' : StandardInput}
    (h : (command.trace input).outcome = (command'.trace input').outcome) (verbosity : Nat) :
    (outcome w ⟨command, verbosity⟩ input).code = (outcome w ⟨command', verbosity⟩ input').code ∧
      (outcome w ⟨command, verbosity⟩ input).stdout = (outcome w ⟨command', verbosity⟩ input').stdout ∧
      (verbosity = 0 → outcome w ⟨command, verbosity⟩ input = outcome w ⟨command', verbosity⟩ input') := by
  simp only [outcome, h]
  refine ⟨?_, ?_, ?_⟩
  · cases (command'.trace input').outcome <;> rfl
  · cases (command'.trace input').outcome <;> rfl
  · rintro rfl
    simp only [shown_zero]

/-! ## Command lines -/

namespace Given

variable {g g' : Given} {options : List Opt} {allowed : Bool}

/-- only `--` ends the options -/
theorem literal_step {arg : String} (hverbose : .verbose ∈ options) (hliteral : g.literal = false) (hmark : arg ≠ "--")
    (h : g.step options allowed arg = .ok g') : g'.literal = false := by
  have hmuted : Muted _ (withCount 0) (g.step options allowed arg) _ := muted_step hverbose hliteral hmark
  rw [h] at hmuted
  exact hmuted.of_ok.1.literal.trans hliteral

theorem literal_foldlM {args : List String} (hverbose : .verbose ∈ options) (hliteral : g.literal = false)
    (hmark : "--" ∉ args) (h : args.foldlM (step options allowed) g = .ok g') : g'.literal = false := by
  induction args generalizing g with
  | nil =>
    obtain rfl := Except.ok.inj h
    exact hliteral
  | cons arg rest ih =>
    obtain ⟨hne, hrest⟩ := List.ne_and_not_mem_of_not_mem_cons hmark
    rw [List.foldlM_cons] at h
    obtain ⟨next, hnext, h⟩ := bind_eq_ok_iff.1 h
    exact ih (literal_step hverbose hliteral (Ne.symm hne) hnext) hrest h

/-- a command that reads its formula from the input was given no operand, and would take one -/
theorem command_withFormula {name : CommandName} {command : Command} (h : g.command name = .ok command)
    (hneeds : command.needsInput = true) :
    g.pending? = none ∧ g.operand? = none ∧ name.takesOperand = true ∧
      ∀ text, Given.command { g with literal := true, operand? := some text } name = .ok (command.withFormula text) := by
  cases hpending : g.pending? with
  | some opt => simp [Given.command, hpending] at h
  | none =>
    cases name with
    | eval | parse | tokens =>
      simp only [Given.command, hpending] at h
      obtain rfl := Except.ok.inj h
      exact ⟨rfl, Option.isNone_iff_eq_none.1 hneeds, rfl, fun text => rfl⟩
    | functions | docs =>
      simp only [Given.command, hpending] at h
      obtain rfl := Except.ok.inj h
      cases hneeds
    | doc =>
      cases hoperand : g.operand? with
      | none => simp [Given.command, hpending, hoperand] at h
      | some topic =>
        simp only [Given.command, hpending, hoperand] at h
        obtain rfl := Except.ok.inj h
        cases hneeds

end Given

theorem readCommand_withFormula {verbosity : Nat} {name : CommandName} {args : List String} {i : Invocation}
    (hmark : "--" ∉ args) (h : readCommand verbosity name args = .ok i) (hneeds : i.command.needsInput = true)
    (text : String) :
    readCommand verbosity name (args ++ ["--", text]) = .ok ⟨i.command.withFormula text, i.verbosity⟩ := by
  have hverbose : .verbose ∈ name.options := by cases name <;> decide
  obtain ⟨g, hgiven, h⟩ := bind_eq_ok_iff.1 h
  obtain ⟨command, hcommand, h⟩ := bind_eq_ok_iff.1 h
  obtain rfl := Except.ok.inj h
  obtain ⟨hpending, hoperand, hallowed, hformula⟩ := Given.command_withFormula hcommand hneeds
  have hliteral : g.literal = false := Given.literal_foldlM hverbose rfl hmark hgiven
  have hoperand' : Given.operand { g with literal := true } name.takesOperand text =
      .ok { g with literal := true, operand? := some text } := by
    simp [Given.operand, hallowed, hoperand]
  have hfold : (args ++ ["--", text]).foldlM (Given.step name.options name.takesOperand) { topic := .command name } =
      .ok { g with literal := true, operand? := some text } := by
    rw [List.foldlM_append, hgiven]
    refine bind_eq_ok_iff.2 ⟨g, rfl, ?_⟩
    rw [List.foldlM_cons, Given.step_mark hliteral hpending]
    refine bind_eq_ok_iff.2 ⟨_, rfl, ?_⟩
    rw [List.foldlM_cons, Given.step_literal rfl, hoperand']
    rfl
  exact bind_eq_ok_iff.2 ⟨_, hfold, bind_eq_ok_iff.2 ⟨_, hformula text, rfl⟩⟩

/-- **A formula can be given behind the other arguments** -/
theorem readArguments_withFormula {before : Given} {args : List String} {i : Invocation} (hliteral : before.literal = false)
    (hmark : "--" ∉ args) (h : readArguments before args = .ok i) (hneeds : i.command.needsInput = true) (text : String) :
    readArguments before (args ++ ["--", text]) = .ok ⟨i.command.withFormula text, i.verbosity⟩ := by
  induction args generalizing before with
  | nil => cases h
  | cons arg rest ih =>
    obtain ⟨hne, hrest⟩ := List.ne_and_not_mem_of_not_mem_cons hmark
    rw [List.cons_append]
    by_cases harg : isDashed arg = true
    · rw [readArguments_dashed hliteral harg] at h ⊢
      obtain ⟨next, hnext, h⟩ := bind_eq_ok_iff.1 h
      have hliteral' : next.literal = false := Given.literal_step (by decide) hliteral (Ne.symm hne) hnext
      exact bind_eq_ok_iff.2 ⟨next, hnext, ih hliteral' hrest h⟩
    · rw [readArguments_plain hliteral (Bool.not_eq_true _ ▸ harg)] at h ⊢
      cases hname : CommandName.ofText? arg with
      | none =>
        rw [hname] at h
        cases h
      | some name =>
        rw [hname] at h
        exact readCommand_withFormula hrest h hneeds text

end CommandLine

open CommandLine

/-- **A formula may be piped in.** Without the line ends at its end a text is split into the same tokens at the same places,
or fails with the same fault at the same place, and only what the error shows of the text may be shorter. So a formula that
can be split has the same value, the same tree and the same tokens with and without them, in every scope; and a command
that reads it from standard input gives the same answer as the command that is given it as an argument, with the same exit
code and output, and unless reports are asked for with nothing else on standard error. -/
theorem run_piped (text : String) :
    (∀ ts, tokenize (dropLineEnds text) = .ok ts ↔ tokenize text = .ok ts) ∧
      (∀ e, tokenize text = .error e → ∃ e', tokenize (dropLineEnds text) = .error e' ∧ e'.Alike e) ∧
      ∀ ts, tokenize text = .ok ts →
        (∀ s : Scope, s.evaluate (dropLineEnds text) = s.evaluate text ∧ s.tree (dropLineEnds text) = s.tree text) ∧
        tokenRows (dropLineEnds text) = tokenRows text ∧
        (∀ (command : Command) input, command.needsInput = true →
          (command.trace (.piped text.toUTF8)).outcome = ((command.withFormula text).trace input).outcome) ∧
        ∀ w args i input, readArguments {} args = .ok i → i.command.needsInput = true → "--" ∉ args →
          (run w args (.piped text.toUTF8)).code = (run w (args ++ ["--", text]) input).code ∧
          (run w args (.piped text.toUTF8)).stdout = (run w (args ++ ["--", text]) input).stdout ∧
          (i.verbosity = 0 → run w args (.piped text.toUTF8) = run w (args ++ ["--", text]) input) := by
  have halike := alike_dropLineEnds text
  refine ⟨halike.toExcept_eq_ok_iff, fun e he => halike.toExcept_eq_error he, fun ts hts => ?_⟩
  have htokens : tokenize (dropLineEnds text) = tokenize text := tokenize_dropLineEnds hts
  refine ⟨fun s => ⟨s.outcome_traceValue_congr htokens, ?_⟩, tokenRows_congr htokens, ?_, ?_⟩
  · rw [Scope.tree, Scope.tree, s.traceTree_congr htokens]
  · intro command input hneeds
    exact outcome_withFormula htokens hneeds input
  · intro w args i input hargs hneeds hmark
    have hargs' := readArguments_withFormula rfl hmark hargs hneeds text
    simp only [run, hargs, hargs']
    exact Invocation.outcome_congr w (outcome_withFormula htokens hneeds input) i.verbosity

/-- the line ends close a comment, or follow the point that cannot be read -/
theorem run_piped_comment :
    tokenize "ABS(-2) --c\r\n\n" =
        .ok [⟨.ident, "ABS", .start⟩, ⟨.operator, "(", ⟨3, 1, 4⟩⟩, ⟨.number, "-2", ⟨4, 1, 5⟩⟩, ⟨.operator, ")", ⟨6, 1, 7⟩⟩] ∧
      run echoing ["eval", "--max-depth=1"] (.piped "ABS(-2) --c\r\n\n".toUTF8) =
        run echoing ["eval", "--max-depth=1", "--", "ABS(-2) --c\r\n\n"] .terminal ∧
      tokenize "1.\n" = .error (.unconsumedInput ⟨1, 1, 2⟩ ".\n") ∧
      ∃ e, tokenize "1." = .error e ∧ e.Alike (.unconsumedInput ⟨1, 1, 2⟩ ".\n") := by
  have htokens : tokenize "ABS(-2) --c\r\n\n" =
      .ok [⟨.ident, "ABS", .start⟩, ⟨.operator, "(", ⟨3, 1, 4⟩⟩, ⟨.number, "-2", ⟨4, 1, 5⟩⟩, ⟨.operator, ")", ⟨6, 1, 7⟩⟩] := by
    decide +kernel
  have hargs : readArguments {} ["eval", "--max-depth=1"] = .ok ⟨.eval ⟨none, [], none, 1⟩, 0⟩ := by rfl
  have herror : tokenize "1.\n" = .error (.unconsumedInput ⟨1, 1, 2⟩ ".\n") := by decide +kernel
  have hdrop : dropLineEnds "1.\n" = "1." := by decide +kernel
  obtain ⟨-, -, hsame⟩ := run_piped "ABS(-2) --c\r\n\n"
  obtain ⟨-, -, -, hrun⟩ := hsame _ htokens
  obtain ⟨-, -, hquiet⟩ := hrun echoing _ _ .terminal hargs rfl (by decide)
  obtain ⟨-, hfails, -⟩ := run_piped "1.\n"
  rw [hdrop] at hfails
  exact ⟨htokens, hquiet rfl, herror, hfails _ herror⟩

end Formula
