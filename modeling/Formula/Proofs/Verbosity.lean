/-
Verbosity changes what is reported and nothing else.

`quiet` takes every `-v` out of a command line, wherever it stands: on its own, among other letters, spelled out, before
the command's name or after it; what follows `--` is no option and stays. Two readings are compared step by step, one of
the arguments as they are and one of the quiet ones from any count (`Muted`): unless the first ends in a usage error, both
stop for the same reason, or both give the same command, the second with the count it started from (`muted_readArguments`).
The reasons to stop, but for a usage error, are told without regard to the command line (`Stop.outcome_congr`).

`run_quiet`: a run prints what the quiet run prints, with numbered lines in front of its errors, and each verbosity picks
its lines from the same events.
-/
import Mathlib.Tactic
import Formula.CommandLine
import Formula.Proofs.Reports

namespace Formula.CommandLine

/-! ## Taking flags out -/

/-- an argument without its `-v` flags, if anything else is in it -/
def quietArgument (arg : String) : Option String :=
  match arg.toList with
  | '-' :: '-' :: body => if body = Opt.verbose.long.toList then none else some arg
  | '-' :: letter :: letters =>
    match (letter :: letters).filter (· != 'v') with
    | [] => none
    | kept => some (String.ofList ('-' :: kept))
  | _ => some arg

/-- arguments without their `-v` flags -/
def quiet : List String → List String
  | [] => []
  | arg :: rest => if arg = "--" then arg :: rest else (quietArgument arg).toList ++ quiet rest

/-- the number of `-v` flags in an argument -/
def flagCount (arg : String) : Nat :=
  match arg.toList with
  | '-' :: '-' :: body => if body = Opt.verbose.long.toList then 1 else 0
  | '-' :: letters => letters.count 'v'
  | _ => 0

/-- the number of `-v` flags in a command line -/
def flagsCount : List String → Nat
  | [] => 0
  | arg :: rest => if arg = "--" then 0 else flagCount arg + flagsCount rest

/-- an argument is no option, the mark that ends options, a long option, or letters after one dash -/
theorem argument_cases (arg : String) :
    isDashed arg = false ∨ arg = "--" ∨ (∃ c body, arg.toList = '-' :: '-' :: c :: body) ∨
      ∃ letter letters, letter ≠ '-' ∧ arg.toList = '-' :: letter :: letters := by
  unfold isDashed
  split
  · rename_i letter letters harg
    by_cases hletter : letter = '-'
    · subst hletter
      cases letters with
      | nil => exact .inr (.inl (String.ext harg))
      | cons c body => exact .inr (.inr (.inl ⟨c, body, harg⟩))
    · exact .inr (.inr (.inr ⟨letter, letters, hletter, harg⟩))
  · exact .inl rfl

theorem quietArgument_plain {arg : String} (h : isDashed arg = false) :
    quietArgument arg = some arg ∧ flagCount arg = 0 := by
  unfold isDashed at h
  split at h
  · cases h
  · rename_i hshape
    unfold quietArgument flagCount
    constructor
    · split <;> simp_all
    · split
      · simp_all
      · rename_i letters _ harg
        cases letters with
        | nil => rfl
        | cons letter letters => exact absurd harg (hshape letter letters)
      · rfl

theorem quietArgument_short {arg : String} {letter : Char} {letters : List Char} (hletter : letter ≠ '-')
    (harg : arg.toList = '-' :: letter :: letters) :
    flagCount arg = (letter :: letters).count 'v' ∧
      quietArgument arg = match (letter :: letters).filter (· != 'v') with
        | [] => none
        | kept => some (String.ofList ('-' :: kept)) := by
  constructor
  · rw [flagCount, harg]
    split <;> simp_all
  · rw [quietArgument, harg]
    split <;> simp_all

/-! ## Two readings -/

/-- `loud` ends in a usage error, or both stop for the same reason, or `loud` has a result with the property `P` and
`muted` has what `mute` makes of it -/
inductive Muted {α : Type} (P : α → Prop) (mute : α → α) : Except Stop α → Except Stop α → Prop where
  | usage (muted : Except Stop α) : Muted P mute (.error .usage) muted
  | stop (s : Stop) : Muted P mute (.error s) (.error s)
  | ok {a : α} (h : P a) : Muted P mute (.ok a) (.ok (mute a))

namespace Muted

variable {α β : Type} {P : α → Prop} {R : β → Prop} {mute : α → α} {mute' : β → β} {loud muted : Except Stop α}

theorem bind {f g : α → Except Stop β} (h : Muted P mute loud muted) (hf : ∀ a, P a → Muted R mute' (f a) (g (mute a))) :
    Muted R mute' (loud >>= f) (muted >>= g) := by
  cases h with
  | usage muted => exact .usage _
  | stop s => exact .stop s
  | ok ha => exact hf _ ha

theorem mono {Q : α → Prop} (h : Muted P mute loud muted) (hPQ : ∀ a, P a → Q a) : Muted Q mute loud muted := by
  cases h with
  | usage muted => exact .usage _
  | stop s => exact .stop s
  | ok ha => exact .ok (hPQ _ ha)

theorem ite {loud' muted' : Except Stop α} (c : Prop) [Decidable c] (h : Muted P mute loud muted)
    (h' : Muted P mute loud' muted') : Muted P mute (if c then loud else loud') (if c then muted else muted') := by
  split_ifs
  · exact h
  · exact h'

/-- a usage error of the muted reading is one of the other -/
theorem loud_usage (h : Muted P mute loud (.error .usage)) : loud = .error .usage := by
  cases h with
  | usage => rfl
  | stop => rfl

theorem of_error {s : Stop} (h : Muted P mute (.error s) muted) (hs : s ≠ .usage) : muted = .error s := by
  cases h with
  | usage => exact absurd rfl hs
  | stop => rfl

theorem of_ok {a : α} (h : Muted P mute (.ok a) muted) : P a ∧ muted = .ok (mute a) := by
  cases h with
  | ok ha => exact ⟨ha, rfl⟩

end Muted

namespace Given

variable {g : Given} {n : Nat} {options : List Opt} {allowed : Bool}

/-- the same arguments with another count of flags -/
def withCount (n : Nat) (g : Given) : Given := { g with verbosity := n }

/-- so many flags more, and still options to come or not -/
structure Counts (g : Given) (count : Nat) (g' : Given) : Prop where
  verbosity : g'.verbosity = g.verbosity + count
  literal : g'.literal = g.literal

theorem Counts.trans {g' g'' : Given} {count more : Nat} (h : g.Counts count g') (h' : g'.Counts more g'') :
    g.Counts (count + more) g'' := by
  refine ⟨?_, h'.literal.trans h.literal⟩
  rw [h'.verbosity, h.verbosity, Nat.add_assoc]

theorem muted_flag {opt : Opt} (spelledOut : Bool) (h : opt ≠ .verbose) :
    Muted (g.Counts 0) (withCount n) (g.flag spelledOut opt) ((g.withCount n).flag spelledOut opt) := by
  cases opt with
  | verbose => exact absurd rfl h
  | version => exact .stop _
  | help => exact .stop _
  | pretty => exact .ite _ (.stop _) (.ok ⟨rfl, rfl⟩)
  | var | vars | maxDepth => exact .stop _

theorem muted_value (opt : Opt) (text : String) :
    Muted (g.Counts 0) (withCount n) (g.value opt text) ((g.withCount n).value opt text) := by
  cases opt with
  | var => exact .ok ⟨rfl, rfl⟩
  | vars => exact .ite _ (.stop _) (.ok ⟨rfl, rfl⟩)
  | maxDepth =>
    simp only [value, withCount]
    split
    · exact .ok ⟨rfl, rfl⟩
    · exact .stop _
  | verbose | version | help | pretty => exact .stop _

theorem muted_operand (text : String) :
    Muted (g.Counts 0) (withCount n) (g.operand allowed text) ((g.withCount n).operand allowed text) :=
  .ite _ (.ok ⟨rfl, rfl⟩) (.stop _)

/-! ## One argument -/

theorem muted_longOption {body : List Char} (h : body ≠ Opt.verbose.long.toList) :
    Muted (g.Counts 0) (withCount n) (g.longOption options body) ((g.withCount n).longOption options body) := by
  cases hfind : options.find? (·.long == String.ofList (body.takeWhile (· != '='))) with
  | none =>
    simp only [longOption, hfind]
    exact .stop _
  | some opt =>
    cases hvalue : body.dropWhile (· != '=') with
    | nil =>
      -- without a value the whole argument is the name
      have hname : opt ≠ .verbose := by
        rintro rfl
        have hlong : Opt.verbose.long = String.ofList (body.takeWhile (· != '=')) := by simpa using List.find?_some hfind
        have hbody : body.takeWhile (· != '=') = body := by
          rw [← List.append_nil (body.takeWhile _), ← hvalue, List.takeWhile_append_dropWhile]
        rw [hbody] at hlong
        exact h (by rw [hlong, String.toList_ofList])
      simp only [longOption, hfind, hvalue]
      exact .ite _ (.ok ⟨rfl, rfl⟩) (muted_flag true hname)
    | cons mark text =>
      simp only [longOption, hfind, hvalue]
      exact .ite _ (muted_value opt _) (.stop _)

theorem find?_verbose {p : Opt → Bool} (h : .verbose ∈ options) (hp : ∀ opt, p opt = true ↔ opt = .verbose) :
    options.find? p = some .verbose := by
  cases hfind : options.find? p with
  | none => exact absurd ((hp _).2 rfl) (List.find?_eq_none.1 hfind _ h)
  | some opt => rw [(hp opt).1 (List.find?_some hfind)]

theorem longOption_verbose (h : .verbose ∈ options) :
    g.longOption options Opt.verbose.long.toList = g.flag true .verbose := by
  have hname : String.ofList (Opt.verbose.long.toList.takeWhile (· != '=')) = Opt.verbose.long := by decide
  have hvalue : Opt.verbose.long.toList.dropWhile (· != '=') = [] := by decide
  have hfind : options.find? (·.long == Opt.verbose.long) = some .verbose :=
    find?_verbose h fun opt => by cases opt <;> decide
  simp only [longOption, hname, hvalue, hfind]
  rfl

theorem muted_shortOptions (hverbose : .verbose ∈ options) (letters : List Char) :
    Muted (g.Counts (letters.count 'v')) (withCount n) (g.shortOptions options letters)
      ((g.withCount n).shortOptions options (letters.filter (· != 'v'))) := by
  induction letters generalizing g with
  | nil => exact .ok ⟨rfl, rfl⟩
  | cons letter letters ih =>
    by_cases hletter : letter = 'v'
    · subst hletter
      have hloud : g.shortOptions options ('v' :: letters) =
          Given.shortOptions { g with verbosity := g.verbosity + 1 } options letters := by
        rw [shortOptions, find?_verbose hverbose fun opt => by cases opt <;> decide]
        rfl
      rw [hloud, List.filter_cons_of_neg (by decide), List.count_cons_self, Nat.add_comm]
      have hone : g.Counts 1 { g with verbosity := g.verbosity + 1 } := ⟨rfl, rfl⟩
      exact ih.mono fun g' hg' => hone.trans hg'
    · rw [List.filter_cons_of_pos (by simpa using hletter), List.count_cons_of_ne hletter, shortOptions, shortOptions]
      cases hfind : options.find? (·.short? == some letter) with
      | none => exact .stop _
      | some opt =>
        have hopt : opt ≠ .verbose := by
          rintro rfl
          have hv : Opt.verbose.short? = some letter := by simpa using List.find?_some hfind
          exact hletter (Option.some.inj hv).symm
        rw [← Nat.zero_add (letters.count 'v')]
        exact (muted_flag false hopt).bind fun g' hg' => ih.mono fun g'' hg'' => hg'.trans hg''

variable {arg : String}

theorem step_literal (h : g.literal = true) : g.step options allowed arg = g.operand allowed arg := by
  rw [step, h]

theorem step_plain (hliteral : g.literal = false) (harg : isDashed arg = false) :
    g.step options allowed arg =
      match g.pending? with
      | some opt => { g with pending? := none }.value opt arg
      | none => g.operand allowed arg := by
  unfold isDashed at harg
  split at harg
  · cases harg
  · rename_i hshape
    rw [step, hliteral]
    cases g.pending? with
    | some opt =>
      dsimp only
      split <;> simp_all
    | none =>
      dsimp only
      split <;> simp_all

theorem step_pending {opt : Opt} {letter : Char} {letters : List Char} (hliteral : g.literal = false)
    (hpending : g.pending? = some opt) (harg : arg.toList = '-' :: letter :: letters) :
    g.step options allowed arg = .error .usage := by
  rw [step, hliteral, hpending, harg]
  rfl

theorem step_long {c : Char} {body : List Char} (hliteral : g.literal = false) (hpending : g.pending? = none)
    (harg : arg.toList = '-' :: '-' :: c :: body) : g.step options allowed arg = g.longOption options (c :: body) := by
  rw [step, hliteral, hpending, harg]
  rfl

theorem step_short {letter : Char} {letters : List Char} (hliteral : g.literal = false) (hpending : g.pending? = none)
    (hletter : letter ≠ '-') (harg : arg.toList = '-' :: letter :: letters) :
    g.step options allowed arg = g.shortOptions options (letter :: letters) := by
  rw [step, hliteral, hpending, harg]
  split <;> simp_all

theorem muted_step_plain (hliteral : g.literal = false) (harg : isDashed arg = false) :
    Muted (g.Counts 0) (withCount n) (g.step options allowed arg) ((g.withCount n).step options allowed arg) := by
  have hliteral' : (g.withCount n).literal = false := hliteral
  have hpending : (g.withCount n).pending? = g.pending? := rfl
  rw [step_plain hliteral harg, step_plain hliteral' harg, hpending]
  cases g.pending? with
  | none => exact muted_operand arg
  | some opt =>
    have hvalue : Muted (Counts { g with pending? := none } 0) (withCount n)
        (Given.value { g with pending? := none } opt arg) _ := muted_value opt arg
    exact hvalue.mono fun g' hg' => ⟨hg'.verbosity, hg'.literal⟩

theorem muted_step_long {c : Char} {body : List Char} (hverbose : .verbose ∈ options) (hliteral : g.literal = false)
    (harg : arg.toList = '-' :: '-' :: c :: body) :
    Muted (g.Counts (flagCount arg)) (withCount n) (g.step options allowed arg)
      ((quietArgument arg).toList.foldlM (step options allowed) (g.withCount n)) := by
  cases hpending : g.pending? with
  | some opt =>
    rw [step_pending hliteral hpending harg]
    exact .usage _
  | none =>
    rw [step_long hliteral hpending harg, flagCount, quietArgument, harg]
    by_cases hbody : c :: body = Opt.verbose.long.toList
    · rw [hbody, longOption_verbose hverbose]
      exact .ok ⟨rfl, rfl⟩
    · have hquiet : (g.withCount n).step options allowed arg = (g.withCount n).longOption options (c :: body) :=
        step_long hliteral hpending harg
      simp only [if_neg hbody, Option.toList_some, List.foldlM_cons, List.foldlM_nil, bind_pure, hquiet]
      exact muted_longOption hbody

/-- a dash is no letter of an option -/
theorem shortOptions_dash (letters : List Char) : g.shortOptions options ('-' :: letters) = .error .usage := by
  have hfind : options.find? (·.short? == some '-') = none := by
    rw [List.find?_eq_none]
    intro opt _
    cases opt <;> decide
  rw [shortOptions, hfind]

theorem muted_step_short {letter : Char} {letters : List Char} (hverbose : .verbose ∈ options) (hliteral : g.literal = false)
    (hletter : letter ≠ '-') (harg : arg.toList = '-' :: letter :: letters) :
    Muted (g.Counts (flagCount arg)) (withCount n) (g.step options allowed arg)
      ((quietArgument arg).toList.foldlM (step options allowed) (g.withCount n)) := by
  cases hpending : g.pending? with
  | some opt =>
    rw [step_pending hliteral hpending harg]
    exact .usage _
  | none =>
    obtain ⟨hcount, hquiet⟩ := quietArgument_short hletter harg
    have hmuted : Muted (g.Counts ((letter :: letters).count 'v')) (withCount n)
        (g.shortOptions options (letter :: letters)) _ := muted_shortOptions hverbose (letter :: letters)
    rw [hcount, hquiet, step_short hliteral hpending hletter harg]
    cases hkept : (letter :: letters).filter (· != 'v') with
    | nil =>
      rw [hkept] at hmuted
      exact hmuted
    | cons first kept =>
      rw [hkept] at hmuted
      by_cases hfirst : first = '-'
      · -- the letters that are left would be a long option; but the dash was among the letters
        rw [hfirst, shortOptions_dash] at hmuted
        rw [hmuted.loud_usage]
        exact .usage _
      · have hstep : (g.withCount n).step options allowed (String.ofList ('-' :: first :: kept)) =
            (g.withCount n).shortOptions options (first :: kept) :=
          step_short hliteral hpending hfirst String.toList_ofList
        simp only [Option.toList_some, List.foldlM_cons, List.foldlM_nil, bind_pure, hstep]
        exact hmuted

/-- **One argument**: what it does without its flags, it does to any count -/
theorem muted_step (hverbose : .verbose ∈ options) (hliteral : g.literal = false) (hmark : arg ≠ "--") :
    Muted (g.Counts (flagCount arg)) (withCount n) (g.step options allowed arg)
      ((quietArgument arg).toList.foldlM (step options allowed) (g.withCount n)) := by
  rcases argument_cases arg with hplain | hmark' | ⟨c, body, harg⟩ | ⟨letter, letters, hletter, harg⟩
  · obtain ⟨hquiet, hcount⟩ := quietArgument_plain hplain
    simp only [hquiet, hcount, Option.toList_some, List.foldlM_cons, List.foldlM_nil, bind_pure]
    exact muted_step_plain hliteral hplain
  · exact absurd hmark' hmark
  · exact muted_step_long hverbose hliteral harg
  · exact muted_step_short hverbose hliteral hletter harg

/-! ## Whole command lines -/

/-- behind `--` there are no flags -/
theorem muted_foldlM_literal (hliteral : g.literal = true) (args : List String) :
    Muted (g.Counts 0) (withCount n) (args.foldlM (step options allowed) g)
      (args.foldlM (step options allowed) (g.withCount n)) := by
  induction args generalizing g with
  | nil => exact .ok ⟨rfl, rfl⟩
  | cons arg rest ih =>
    have hliteral' : (g.withCount n).literal = true := hliteral
    rw [List.foldlM_cons, List.foldlM_cons, step_literal hliteral, step_literal hliteral']
    exact (muted_operand arg).bind fun g' hg' => (ih (hg'.literal.trans hliteral)).mono fun g'' hg'' => hg'.trans hg''

theorem step_mark (hliteral : g.literal = false) (hpending : g.pending? = none) :
    g.step options allowed "--" = .ok { g with literal := true } := by
  rw [step, hliteral, hpending]
  rfl

/-- **The arguments of a command** -/
theorem muted_foldlM (hverbose : .verbose ∈ options) (hliteral : g.literal = false) (args : List String) :
    Muted (fun g' => g'.verbosity = g.verbosity + flagsCount args) (withCount n) (args.foldlM (step options allowed) g)
      ((quiet args).foldlM (step options allowed) (g.withCount n)) := by
  induction args generalizing g with
  | nil => exact .ok rfl
  | cons arg rest ih =>
    by_cases hmark : arg = "--"
    · subst hmark
      rw [quiet, flagsCount, if_pos rfl, if_pos rfl, List.foldlM_cons, List.foldlM_cons]
      cases hpending : g.pending? with
      | some opt =>
        have hdashes : "--".toList = ['-', '-'] := rfl
        rw [step_pending hliteral hpending hdashes]
        exact .usage _
      | none =>
        have hquiet : (g.withCount n).step options allowed "--" = .ok { g.withCount n with literal := true } :=
          step_mark hliteral hpending
        rw [step_mark hliteral hpending, hquiet]
        have hrest : Muted _ (withCount n) (rest.foldlM (step options allowed) { g with literal := true }) _ :=
          muted_foldlM_literal rfl rest
        exact hrest.mono fun g' hg' => hg'.verbosity
    · rw [quiet, flagsCount, if_neg hmark, if_neg hmark, List.foldlM_cons, List.foldlM_append]
      refine (muted_step hverbose hliteral hmark).bind fun g' hg' => ?_
      refine (ih (hg'.literal.trans hliteral)).mono fun g'' hg'' => ?_
      rw [hg'', hg'.verbosity, Nat.add_assoc]

end Given

/-- the same command with another verbosity -/
def Invocation.withCount (n : Nat) (i : Invocation) : Invocation := { i with verbosity := n }

/-- the count behind the command's name goes before the one in front of it, and neither is in the quiet arguments -/
theorem muted_readCommand (verbosity n : Nat) (name : CommandName) (args : List String) :
    Muted (fun i => i.verbosity = if flagsCount args = 0 then verbosity else flagsCount args) (Invocation.withCount n)
      (readCommand verbosity name args) (readCommand n name (quiet args)) := by
  have hverbose : .verbose ∈ name.options := by cases name <;> decide
  have hgiven : Muted _ (Given.withCount 0)
      (args.foldlM (Given.step name.options name.takesOperand) { topic := .command name })
      ((quiet args).foldlM (Given.step name.options name.takesOperand) (Given.withCount 0 { topic := .command name })) :=
    Given.muted_foldlM hverbose rfl args
  refine hgiven.bind fun g hg => ?_
  have hcommand : (g.withCount 0).command name = g.command name := rfl
  rw [hcommand]
  cases g.command name with
  | error s => exact .stop s
  | ok command =>
    have hcount : g.verbosity = flagsCount args := by rw [hg, Nat.zero_add]
    exact .ok (by simp [hcount])

section

variable {before : Given} {arg : String}

theorem readArguments_literal (h : before.literal = true) (args : List String) :
    readArguments before args = .error .usage := by
  cases args with
  | nil => rfl
  | cons arg rest => simp [readArguments, h]

theorem readArguments_dashed (hliteral : before.literal = false) (harg : isDashed arg = true) (rest : List String) :
    readArguments before (arg :: rest) =
      before.step globalOptions false arg >>= fun before => readArguments before rest := by
  rw [readArguments, if_pos (by simp [harg, hliteral])]

theorem readArguments_plain (hliteral : before.literal = false) (harg : isDashed arg = false) (rest : List String) :
    readArguments before (arg :: rest) =
      match CommandName.ofText? arg with
      | some name => readCommand before.verbosity name rest
      | none => .error (if arg = "help" then helpRequest rest else .usage) := by
  rw [readArguments, if_neg (by simp [harg]), hliteral]
  cases CommandName.ofText? arg with
  | none => rfl
  | some name => rfl

theorem isDashed_quietArgument {arg' : String} (harg : isDashed arg = true) (h : quietArgument arg = some arg') :
    isDashed arg' = true := by
  unfold quietArgument at h
  split at h
  · split_ifs at h
    obtain rfl := Option.some.inj h
    exact harg
  · split at h
    · cases h
    · rename_i kept hkept
      obtain rfl := Option.some.inj h
      obtain ⟨first, more, hcons⟩ := List.exists_cons_of_ne_nil hkept
      rw [isDashed, String.toList_ofList, hcons]
      rfl
  · obtain rfl := Option.some.inj h
    exact harg

theorem readArguments_quietArgument (hliteral : before.literal = false) (harg : isDashed arg = true) (rest : List String) :
    readArguments before ((quietArgument arg).toList ++ rest) =
      (quietArgument arg).toList.foldlM (Given.step globalOptions false) before >>=
        fun before => readArguments before rest := by
  cases hquiet : quietArgument arg with
  | none => rfl
  | some arg' =>
    simp only [Option.toList_some, List.singleton_append, List.foldlM_cons, List.foldlM_nil, bind_pure]
    exact readArguments_dashed hliteral (isDashed_quietArgument harg hquiet) rest

theorem quiet_plain (harg : isDashed arg = false) (rest : List String) : quiet (arg :: rest) = arg :: quiet rest := by
  have hmark : arg ≠ "--" := by
    rintro rfl
    cases harg
  rw [quiet, if_neg hmark, (quietArgument_plain harg).1, Option.toList_some, List.singleton_append]

theorem isDashed_topic {topic : HelpTopic} (h : HelpTopic.ofText? arg = some topic) : isDashed arg = false := by
  by_cases hhelp : arg = "help"
  · rw [hhelp]
    decide
  · rw [HelpTopic.ofText?, if_neg hhelp, Option.map_eq_some_iff] at h
    obtain ⟨name, hname, -⟩ := h
    have htext : name.text = arg := by simpa using List.find?_some hname
    rw [← htext]
    cases name <;> decide

/-- help is given about a topic, which is no flag -/
theorem helpRequest_cases (args : List String) : helpRequest args = .usage ∨ quiet args = args := by
  match args with
  | [] => exact .inr rfl
  | [name] =>
    cases htopic : HelpTopic.ofText? name with
    | some topic => exact .inr (quiet_plain (isDashed_topic htopic) [])
    | none =>
      left
      rw [helpRequest, htopic]
  | _ :: _ :: _ => exact .inl rfl

/-- **A command line without its flags is read as the same command** -/
theorem muted_readArguments {n : Nat} (hliteral : before.literal = false) (args : List String) :
    Muted (fun i => i.verbosity ≤ before.verbosity + flagsCount args ∧
        (i.verbosity = 0 → before.verbosity + flagsCount args = 0)) (Invocation.withCount n)
      (readArguments before args) (readArguments (before.withCount n) (quiet args)) := by
  induction args generalizing before with
  | nil => exact .stop _
  | cons arg rest ih =>
    have hliteral' : (before.withCount n).literal = false := hliteral
    by_cases hmark : arg = "--"
    · -- no command's name can follow
      subst hmark
      have hdashes : "--".toList = ['-', '-'] := rfl
      have husage : readArguments before ("--" :: rest) = .error .usage := by
        rw [readArguments_dashed hliteral rfl]
        cases hpending : before.pending? with
        | some opt =>
          rw [Given.step_pending hliteral hpending hdashes]
          rfl
        | none =>
          rw [Given.step_mark hliteral hpending]
          exact readArguments_literal rfl rest
      rw [husage]
      exact .usage _
    · rw [quiet, flagsCount, if_neg hmark, if_neg hmark]
      cases harg : isDashed arg with
      | true =>
        rw [readArguments_dashed hliteral harg, readArguments_quietArgument hliteral' harg]
        have hverbose : .verbose ∈ globalOptions := by decide
        refine (Given.muted_step hverbose hliteral hmark).bind fun g hg => ?_
        rw [← Nat.add_assoc, ← hg.verbosity]
        exact ih (hg.literal.trans hliteral)
      | false =>
        obtain ⟨hquiet, hcount⟩ := quietArgument_plain harg
        rw [hquiet, hcount, Option.toList_some, List.singleton_append, readArguments_plain hliteral harg,
          readArguments_plain hliteral' harg, Nat.zero_add]
        cases CommandName.ofText? arg with
        | some name =>
          refine (muted_readCommand _ n name rest).mono fun i hi => ?_
          split_ifs at hi <;> omega
        | none =>
          dsimp only
          split_ifs
          · rcases helpRequest_cases rest with husage | hsame
            · rw [husage]
              exact .usage _
            · rw [hsame]
              exact .stop _
          · exact .usage _

/-- flags in front of a command line -/
theorem readArguments_replicate (hliteral : before.literal = false) (hpending : before.pending? = none) (k : Nat)
    (args : List String) :
    readArguments before (List.replicate k "-v" ++ args) = readArguments (before.withCount (before.verbosity + k)) args := by
  induction k generalizing before with
  | zero => rfl
  | succ k ih =>
    have hstep : before.step globalOptions false "-v" = .ok (before.withCount (before.verbosity + 1)) := by
      rw [Given.step, hliteral, hpending]
      rfl
    rw [List.replicate_succ, List.cons_append, readArguments_dashed hliteral rfl, hstep]
    have hmore : readArguments (before.withCount (before.verbosity + 1)) (List.replicate k "-v" ++ args) =
        readArguments (before.withCount (before.verbosity + 1 + k)) args := ih hliteral hpending
    rw [Nat.add_assoc, Nat.add_comm 1 k] at hmore
    exact hmore

end

/-! ## Reports -/

/-- numbered reports, one a line -/
def logText (events : List Event) : String :=
  String.join (events.mapIdx fun i e =>
    toString (i + 1) ++ "|" ++ e.level.name ++ "|" ++ e.target ++ "|" ++ e.message ++ "\n")

/-- the outcome with reports in front of what is on standard error -/
def Outcome.withLog (o : Outcome) (events : List Event) : Outcome := { o with stderr := logText events ++ o.stderr }

theorem Outcome.withLog_nil (o : Outcome) : o.withLog [] = o := by simp [withLog, logText]

theorem reportLines_eq (number : Nat) (events : List Event) :
    reportLines number events = String.join (events.mapIdx fun i e => reportLine (i + number) e) := by
  induction events generalizing number with
  | nil => rfl
  | cons e rest ih =>
    have hshift : (fun i e => reportLine (i + (number + 1)) e) = fun i e => reportLine (i + 1 + number) e := by
      funext i e
      rw [Nat.add_comm number 1, Nat.add_assoc]
    rw [reportLines, ih, hshift, List.mapIdx_cons, String.join_cons, Nat.zero_add]

theorem isLine_report (e : Event) (h : IsLine e.message) : IsLine (e.level.name ++ "|" ++ e.target ++ "|" ++ e.message) := by
  have hname : IsLine e.level.name := by cases e.level <;> decide
  have htarget : IsLine e.target := by
    unfold Event.target
    split <;> decide
  simp only [isLine_append]
  exact ⟨⟨⟨⟨hname, by decide⟩, htarget⟩, by decide⟩, h⟩

theorem level_cases (e : Event) : e.level = .debug ∨ e.level = .trace := by cases e <;> simp [Event.level]

theorem shown_zero (events : List Event) : shown 0 events = [] := by
  rw [shown, List.filter_eq_nil_iff]
  intro e _
  rcases level_cases e with hlevel | hlevel <;> simp [hlevel, Level.rank, Level.ofVerbosity]

/-- one flag shows what more flags show and marks as `DEBUG` -/
theorem shown_one {k : Nat} (hk : 1 ≤ k) (events : List Event) :
    shown 1 events = (shown k events).filter (·.level = .debug) := by
  have hlevel : 1 ≤ (Level.ofVerbosity k).rank := by
    match k, hk with
    | 1, _ => decide
    | k + 2, _ => exact Nat.le_succ 1
  rw [shown, shown, List.filter_filter]
  apply List.filter_congr
  intro e _
  rcases level_cases e with he | he
  · have hdebug : Level.debug.rank ≤ (Level.ofVerbosity 1).rank ∧ Level.debug.rank ≤ (Level.ofVerbosity k).rank :=
      ⟨le_rfl, hlevel⟩
    simp [he, hdebug]
  · simp [he, Level.rank, Level.ofVerbosity]

/-- **What a command prints at any verbosity** -/
theorem outcome_withLog (w : Wording) (i : Invocation) (input : StandardInput) :
    i.outcome w input =
      ((i.withCount 0).outcome w input).withLog (shown i.verbosity (i.command.trace input).events) := by
  have htext (events : List Event) : reportLines 1 events = logText events := reportLines_eq 1 events
  have hnone : logText [] = "" := rfl
  simp only [Invocation.outcome, Invocation.withCount, shown_zero, htext, hnone]
  cases (i.command.trace input).outcome with
  | ok text => simp [Outcome.withLog]
  | error e => simp [Outcome.withLog, String.append_assoc]

/-! ## Runs -/

/-- everything that the command of a command line reports -/
def reported (args : List String) (input : StandardInput) : List Event :=
  match readArguments {} args with
  | .ok i => (i.command.trace input).events
  | .error _ => []

theorem isLine_reported (args : List String) (input : StandardInput) : ∀ e ∈ reported args input, IsLine e.message := by
  unfold reported
  cases readArguments {} args with
  | ok i => exact (i.command.reports_trace input).events
  | error s => simp

/-- only a usage error tells of the command line as it is -/
theorem Stop.outcome_congr (w : Wording) {s : Stop} (h : s ≠ .usage) (args args' : List String) :
    s.outcome w args = s.outcome w args' := by
  cases s with
  | usage => exact absurd rfl h
  | version => rfl
  | help topic full => rfl

/-- a command line is read, without its flags and with `k` of them in front, as the command that it is read as -/
theorem readArguments_quiet {args : List String} (h : readArguments {} args ≠ .error .usage) :
    (∃ s, readArguments {} args = .error s ∧ ∀ k, readArguments {} (List.replicate k "-v" ++ quiet args) = .error s) ∨
      ∃ i : Invocation, readArguments {} args = .ok i ∧ i.verbosity ≤ flagsCount args ∧
        (i.verbosity = 0 → flagsCount args = 0) ∧
        ∀ k, readArguments {} (List.replicate k "-v" ++ quiet args) = .ok (i.withCount k) := by
  have hmuted (k : Nat) : Muted (fun i => i.verbosity ≤ flagsCount args ∧ (i.verbosity = 0 → flagsCount args = 0))
      (Invocation.withCount k) (readArguments {} args) (readArguments {} (List.replicate k "-v" ++ quiet args)) := by
    have hread : Muted _ (Invocation.withCount k) (readArguments {} args)
        (readArguments (Given.withCount k {}) (quiet args)) := muted_readArguments rfl args
    rw [readArguments_replicate rfl rfl]
    simpa only [Nat.zero_add] using hread
  cases hread : readArguments {} args with
  | error s =>
    rw [hread] at h hmuted
    exact .inl ⟨s, rfl, fun k => (hmuted k).of_error fun hs => h (by rw [hs])⟩
  | ok i =>
    rw [hread] at hmuted
    obtain ⟨hle, hzero⟩ := (hmuted 0).of_ok.1
    exact .inr ⟨i, rfl, hle, hzero, fun k => (hmuted k).of_ok.2⟩

/-- **Any run is the quiet run with a log** -/
theorem run_withLog {w : Wording} {args : List String} {input : StandardInput} (h : (run w args input).code ≠ 2) :
    (∀ k, run w (List.replicate k "-v" ++ quiet args) input =
        (run w (quiet args) input).withLog (shown k (reported (quiet args) input))) ∧
      ∃ k ≤ flagsCount args, (k = 0 → flagsCount args = 0) ∧
        run w args input = (run w (quiet args) input).withLog (shown k (reported (quiet args) input)) := by
  have husage : readArguments {} args ≠ .error .usage := by
    intro husage
    rw [run, husage] at h
    exact h rfl
  rcases readArguments_quiet husage with ⟨s, hread, hfront⟩ | ⟨i, hread, hle, hzero, hfront⟩
  · have hquiet : readArguments {} (quiet args) = .error s := hfront 0
    have hs : s ≠ .usage := fun hs => husage (hs ▸ hread)
    have hlog (args' : List String) (k : Nat) :
        s.outcome w args' = (s.outcome w (quiet args)).withLog (shown k []) := by
      rw [s.outcome_congr w hs args' (quiet args)]
      exact (Outcome.withLog_nil _).symm
    refine ⟨?_, flagsCount args, le_rfl, id, ?_⟩
    · intro k
      simp only [run, reported, hfront k, hquiet]
      exact hlog _ k
    · simp only [run, reported, hread, hquiet]
      exact hlog _ _
  · have hquiet : readArguments {} (quiet args) = .ok (i.withCount 0) := hfront 0
    refine ⟨?_, i.verbosity, hle, hzero, ?_⟩
    · intro k
      simp only [run, reported, hfront k, hquiet]
      exact outcome_withLog w (i.withCount k) input
    · simp only [run, reported, hread, hquiet]
      exact outcome_withLog w i input

/-- **Verbosity does not interfere.** Take a command line that is no usage error, and any input: a terminal, a pipe, or a
stream that fails. Without flags it gives an exit code, an output and an error text; with `k` flags in front it gives the
same, after a log, whose lines are numbered from 1 on. One flag logs the `DEBUG` lines of what more flags log. Flags that
stand elsewhere, so that there still is no usage error, do as some flags in front do: none if there is none, and no more than
there are. This is so in whatever words help is given and faults of JSON are told. -/
theorem run_quiet {w : Wording} {args : List String} {input : StandardInput} (h : (run w args input).code ≠ 2) :
    ∃ logs : Nat → List Event,
      (∀ k, ∀ e ∈ logs k, IsLine (e.level.name ++ "|" ++ e.target ++ "|" ++ e.message)) ∧
      (∀ k, run w (List.replicate k "-v" ++ quiet args) input = (run w (quiet args) input).withLog (logs k)) ∧
      (∀ k, 1 ≤ k → logs 1 = (logs k).filter (·.level = .debug)) ∧
      ∀ args', quiet args' = quiet args → (run w args' input).code ≠ 2 →
        ∃ k ≤ flagsCount args', (k = 0 → flagsCount args' = 0) ∧
          run w args' input = (run w (quiet args) input).withLog (logs k) := by
  refine ⟨fun k => shown k (reported (quiet args) input), ?_, (run_withLog h).1, ?_, ?_⟩
  · intro k e he
    exact isLine_report e (isLine_reported _ _ e (List.mem_of_mem_filter he))
  · intro k hk
    exact shown_one hk _
  · intro args' hquiet h'
    rw [← hquiet]
    exact (run_withLog h').2

/-- words that repeat what they are about -/
def echoing : Wording := ⟨fun page _ => page.about?.getD "", String.join, id⟩

/-- three flags, of which the two behind the command's name count -/
theorem run_quiet_scattered :
    (run echoing ["-v", "parse", "-pv", "1 +\n2", "--verbose"] .terminal).code ≠ 2 ∧
      quiet ["-v", "parse", "-pv", "1 +\n2", "--verbose"] = ["parse", "-p", "1 +\n2"] ∧
      ∃ logs : Nat → List Event,
        (∀ k, run echoing (List.replicate k "-v" ++ ["parse", "-p", "1 +\n2"]) .terminal =
          (run echoing ["parse", "-p", "1 +\n2"] .terminal).withLog (logs k)) ∧
        logs 1 = (logs 2).filter (·.level = .debug) ∧
        ∃ k ≤ 3, run echoing ["-v", "parse", "-pv", "1 +\n2", "--verbose"] .terminal =
          (run echoing ["parse", "-p", "1 +\n2"] .terminal).withLog (logs k) := by
  have hcode : (run echoing ["-v", "parse", "-pv", "1 +\n2", "--verbose"] .terminal).code ≠ 2 := by decide +kernel
  have hquiet : quiet ["-v", "parse", "-pv", "1 +\n2", "--verbose"] = ["parse", "-p", "1 +\n2"] := by decide +kernel
  obtain ⟨logs, -, hfront, hdebug, hplaced⟩ := run_quiet hcode
  obtain ⟨k, hk, -, hrun⟩ := hplaced _ rfl hcode
  rw [hquiet] at hfront hrun
  exact ⟨hcode, hquiet, logs, hfront, hdebug 2 (by decide), k, hk, hrun⟩

/-- a terminal is not read from, a broken stream is, and help is about the command -/
example :
    (run echoing ["eval", "-v"] .terminal).stderr =
        "No expression provided. Pass one as an argument or pipe it to stdin.\n" ∧
      (run echoing ["tokens"] (.broken "Is a directory")).stderr = "IO error: Is a directory\n" ∧
      run echoing ["-v", "doc", "-vh"] .terminal = ⟨0, "Show documentation for a specific category", ""⟩ := by
  decide +kernel

end Formula.CommandLine
