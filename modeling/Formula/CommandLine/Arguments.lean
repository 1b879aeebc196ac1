/-
Reading the command line.

Options may stand before or after the command's name, and each command takes some of them. An argument that starts with a
dash and has more characters is an option; long options may carry their value after `=` or as the next argument, and short
ones may be run together. After `--` every argument is taken as it is. Reading goes from left to right and stops at the
first thing that decides the matter: a usage error, or a request for the version or for help.
-/
import Formula.Parsing

namespace Formula.CommandLine

/-! ## Options and commands -/

/-- the options of the program -/
inductive Opt where
  | verbose
  | version
  | help
  | pretty
  | var
  | vars
  | maxDepth
deriving DecidableEq, Repr

namespace Opt

/-- the name after two dashes -/
def long : Opt → String
  | .verbose => "verbose"
  | .version => "version"
  | .help => "help"
  | .pretty => "pretty"
  | .var => "var"
  | .vars => "vars"
  | .maxDepth => "max-depth"

/-- the letter after one dash -/
def short? : Opt → Option Char
  | .verbose => some 'v'
  | .version => some 'V'
  | .help => some 'h'
  | .pretty => some 'p'
  | .var | .vars | .maxDepth => none

/-- does the option need a value? -/
def takesValue : Opt → Bool
  | .var | .vars | .maxDepth => true
  | .verbose | .version | .help | .pretty => false

end Opt

/-- what the program can be told to do -/
inductive CommandName where
  | eval
  | parse
  | tokens
  | functions
  | docs
  | doc
deriving DecidableEq, Repr

namespace CommandName

/-- all commands, in the order in which they are listed -/
def all : List CommandName := [.eval, .parse, .tokens, .functions, .docs, .doc]

/-- the word for a command -/
def text : CommandName → String
  | .eval => "eval"
  | .parse => "parse"
  | .tokens => "tokens"
  | .functions => "functions"
  | .docs => "docs"
  | .doc => "doc"

def ofText? (text : String) : Option CommandName := all.find? (·.text == text)

/-- the options that may follow the command -/
def options : CommandName → List Opt
  | .eval => [.verbose, .help, .var, .vars, .maxDepth]
  | .parse => [.verbose, .help, .var, .vars, .maxDepth, .pretty]
  | .tokens | .functions | .docs | .doc => [.verbose, .help]

/-- may an argument that is no option follow the command? -/
def takesOperand : CommandName → Bool
  | .eval | .parse | .tokens | .doc => true
  | .functions | .docs => false

end CommandName

/-- the options that may stand before the command -/
def globalOptions : List Opt := [.verbose, .help, .version]

/-- what a page of help is about -/
inductive HelpTopic where
  | program
  | command (name : CommandName)
  /-- the word `help` itself -/
  | help
deriving DecidableEq, Repr

/-- the topic that `help` is asked about -/
def HelpTopic.ofText? (text : String) : Option HelpTopic :=
  if text = "help" then some .help else (CommandName.ofText? text).map .command

/-- why there is no command to run -/
inductive Stop where
  | usage
  | version
  /-- a page of help, in short or in full -/
  | help (topic : HelpTopic) (full : Bool)
deriving DecidableEq, Repr

/-! ## Collecting arguments -/

/-- what has been given so far -/
structure Given where
  /-- what help would be about: the program, and behind a command's name the command -/
  topic : HelpTopic := .program
  verbosity : Nat := 0
  pretty : Bool := false
  specs : List String := []
  json? : Option String := none
  maxDepth? : Option Nat := none
  operand? : Option String := none
  /-- the option whose value must come next -/
  pending? : Option Opt := none
  /-- has `--` been passed? -/
  literal : Bool := false

/-- a whole number below 2^64, with an optional plus sign -/
def readCount? (text : String) : Option Nat :=
  let digits := match text.toList with
    | '+' :: rest => rest
    | cs => cs
  if digits ≠ [] ∧ digits.all Char.isDigit ∧ Decimal.digitsValue digits < twoPow 64 then some (Decimal.digitsValue digits)
  else none

namespace Given

/-- an option without a value; spelled out, it asks for help in full -/
def flag (g : Given) (spelledOut : Bool) : Opt → Except Stop Given
  | .verbose => .ok { g with verbosity := g.verbosity + 1 }
  | .pretty => if g.pretty then .error .usage else .ok { g with pretty := true }
  | .version => .error .version
  | .help => .error (.help g.topic spelledOut)
  | .var | .vars | .maxDepth => .error .usage

/-- an option with its value; only `--var` may be repeated -/
def value (g : Given) (opt : Opt) (text : String) : Except Stop Given :=
  match opt with
  | .var => .ok { g with specs := g.specs ++ [text] }
  | .vars => if g.json?.isSome then .error .usage else .ok { g with json? := some text }
  | .maxDepth =>
    match g.maxDepth?, readCount? text with
    | none, some n => .ok { g with maxDepth? := some n }
    | _, _ => .error .usage
  | .verbose | .version | .help | .pretty => .error .usage

/-- an argument that is no option -/
def operand (g : Given) (allowed : Bool) (text : String) : Except Stop Given :=
  if allowed && g.operand?.isNone then .ok { g with operand? := some text } else .error .usage

/-- `--name` or `--name=value` -/
def longOption (g : Given) (options : List Opt) (body : List Char) : Except Stop Given :=
  let name := String.ofList (body.takeWhile (· != '='))
  match options.find? (·.long == name), body.dropWhile (· != '=') with
  | none, _ => .error .usage
  | some opt, [] => if opt.takesValue then .ok { g with pending? := some opt } else g.flag true opt
  | some opt, _ :: text => if opt.takesValue then g.value opt (String.ofList text) else .error .usage

/-- letters after one dash -/
def shortOptions (g : Given) (options : List Opt) : List Char → Except Stop Given
  | [] => .ok g
  | letter :: rest =>
    match options.find? (·.short? == some letter) with
    | none => .error .usage
    | some opt => do
      let g ← g.flag false opt
      g.shortOptions options rest

/-- takes one argument where `options` are known -/
def step (options : List Opt) (operandAllowed : Bool) (g : Given) (arg : String) : Except Stop Given :=
  match g.literal, g.pending?, arg.toList with
  | true, _, _ => g.operand operandAllowed arg
  | false, some _, '-' :: _ :: _ => .error .usage
  | false, some opt, _ => { g with pending? := none }.value opt arg
  | false, none, ['-', '-'] => .ok { g with literal := true }
  | false, none, '-' :: '-' :: body => g.longOption options body
  | false, none, '-' :: letter :: letters => g.shortOptions options (letter :: letters)
  | false, none, _ => g.operand operandAllowed arg

end Given

/-! ## Commands -/

/-- a formula with what it is read against, as given -/
structure FormulaArguments where
  formula? : Option String
  specs : List String
  json? : Option String
  maxDepth : Nat

/-- a command with its arguments -/
inductive Command where
  | eval (args : FormulaArguments)
  | parse (args : FormulaArguments) (pretty : Bool)
  | tokens (formula? : Option String)
  | functions
  | docs
  | doc (topic : String)

/-- a command and how much it should report -/
structure Invocation where
  command : Command
  verbosity : Nat

namespace Given

def formulaArguments (g : Given) : FormulaArguments :=
  ⟨g.operand?, g.specs, g.json?, g.maxDepth?.getD defaultMaxDepth⟩

/-- the command that has been given in full -/
def command (g : Given) (name : CommandName) : Except Stop Command :=
  match g.pending?, name, g.operand? with
  | some _, _, _ => .error .usage
  | none, .eval, _ => .ok (.eval g.formulaArguments)
  | none, .parse, _ => .ok (.parse g.formulaArguments g.pretty)
  | none, .tokens, formula? => .ok (.tokens formula?)
  | none, .functions, _ => .ok .functions
  | none, .docs, _ => .ok .docs
  | none, .doc, some topic => .ok (.doc topic)
  | none, .doc, none => .error .usage

end Given

/-- reads what follows a command's name; its own count of `-v`, if there is one, replaces the count before the name -/
def readCommand (verbosity : Nat) (name : CommandName) (args : List String) : Except Stop Invocation := do
  let given ← args.foldlM (Given.step name.options name.takesOperand) { topic := .command name }
  let command ← given.command name
  return ⟨command, if given.verbosity = 0 then verbosity else given.verbosity⟩

/-- is this argument an option, or the mark that ends them? -/
def isDashed (arg : String) : Bool :=
  match arg.toList with
  | '-' :: _ :: _ => true
  | _ => false

/-- the word `help` may be followed by one topic -/
def helpRequest (args : List String) : Stop :=
  match args with
  | [] => .help .program true
  | [name] =>
    match HelpTopic.ofText? name with
    | some topic => .help topic true
    | none => .usage
  | _ => .usage

/-- reads the arguments up to the command's name, then the rest -/
def readArguments (before : Given) : List String → Except Stop Invocation
  | [] => .error .usage
  | arg :: rest =>
    if isDashed arg && !before.literal then do
      let before ← before.step globalOptions false arg
      readArguments before rest
    else
      match before.literal, CommandName.ofText? arg with
      | false, some name => readCommand before.verbosity name rest
      | false, none => .error (if arg = "help" then helpRequest rest else .usage)
      | true, _ => .error .usage

end Formula.CommandLine
