/-
Running a command: from arguments and standard input to an exit code and what is printed.

A command yields one text or one error, along with the events it reported. The text goes to standard output with a line
end. Reports go to standard error, numbered from 1, as far as the verbosity asks for them; an error follows them there.

Some texts are not the program's own: how a page of help is set, what is wrong with a command line, and what is wrong with a
text that is not JSON. A run is given them (`Wording`).
-/
import Formula.CommandLine.Help
import Formula.Interpreter
import Formula.Manual
import Formula.Node.Json
import Formula.Variable.Definition

namespace Formula.CommandLine

/-- the texts of a run that are not the program's own -/
structure Wording where
  /-- a page of help, in short or in full -/
  help : HelpPage → (full : Bool) → String
  /-- what is wrong with a command line -/
  usage : (args : List String) → String
  /-- what is wrong with a text that is not JSON -/
  notJson : (text : String) → String

/-- why a command has no output -/
inductive CommandError where
  | formula (e : Error)
  | definition (e : DefinitionError)
  /-- standard input cannot be read -/
  | unreadableInput (fault : String)
  /-- a formula is neither given nor to be read -/
  | noInput
  | unknownTopic (name : String)

/-- the wording of a command's error -/
def CommandError.message (w : Wording) : CommandError → String
  | .formula e => e.message
  | .definition e => e.message w.notJson
  | .unreadableInput fault => "IO error: " ++ fault
  | .noInput => "No expression provided. Pass one as an argument or pipe it to stdin."
  | .unknownTopic name => "Unknown category: '" ++ name ++ "'\nRun 'infa-expr docs' to see available categories."

/-! ## Commands -/

/-- `text` without line ends at its end -/
def dropLineEnds (text : String) : String :=
  String.ofList (text.toList.reverse.dropWhile fun c => c == '\n' || c == '\r').reverse

/-- what is at standard input -/
inductive StandardInput where
  /-- somebody at a terminal, who is not asked -/
  | terminal
  | piped (bytes : ByteArray)
  /-- a stream that fails when it is read -/
  | broken (fault : String)

/-- the formula given as an argument, or else what is piped in -/
def readFormula (formula? : Option String) (input : StandardInput) : Except CommandError String :=
  match formula?, input with
  | some formula, _ => .ok formula
  | none, .piped bytes =>
    match String.fromUTF8? bytes with
    | some text => .ok (dropLineEnds text)
    | none => .error (.unreadableInput "stream did not contain valid UTF-8")
  | none, .broken fault => .error (.unreadableInput fault)
  | none, .terminal => .error .noInput

/-- the variables given: those in JSON first, then the single ones in order -/
def readVariables (args : FormulaArguments) : Except CommandError (List Variable) := do
  let listed ← match args.json? with
    | some json => (Variable.listOfJson json).mapError CommandError.definition
    | none => .ok []
  let single ← (args.specs.mapM Variable.ofSpec).mapError CommandError.definition
  return listed ++ single

/-- the scope and the formula of a command -/
def readScope (args : FormulaArguments) (input : StandardInput) : Except CommandError (Scope × String) := do
  let vars ← readVariables args
  let formula ← readFormula args.formula? input
  return (⟨vars, args.maxDepth⟩, formula)

/-- a tree as text -/
def renderTree (pretty : Bool) (tree : Node) : String :=
  if pretty then tree.toJson.pretty else tree.toJson.compact

/-- the rows of a token listing -/
def tokenRows (formula : String) : Except Error (List String) :=
  ((tokenize formula).map fun tokens => tokens.map Token.row).mapError Error.lex

/-- lines without the last line end -/
def lines (rows : List String) : String := "\n".intercalate rows

/-- the output of a command, with reports -/
def Command.trace (input : StandardInput) : Command → Traced CommandError String
  | .eval args => do
    let (scope, formula) ← .ofExcept (readScope args input)
    (scope.traceValue formula).mapError CommandError.formula
  | .parse args pretty => do
    let (scope, formula) ← .ofExcept (readScope args input)
    let tree ← (scope.traceTree formula).mapError CommandError.formula
    return renderTree pretty tree
  | .tokens formula? => .ofExcept do
    let formula ← readFormula formula? input
    let rows ← (tokenRows formula).mapError CommandError.formula
    return lines rows
  | .functions => return lines (Manual.functionList .builtin)
  | .docs => return lines Manual.overview
  | .doc topic =>
    match Manual.Topic.ofName? topic with
    | some topic => return lines topic.page
    | none => .fail (.unknownTopic topic)

/-- does the command read standard input? -/
def Command.needsInput : Command → Bool
  | .eval args | .parse args _ => args.formula?.isNone
  | .tokens formula? => formula?.isNone
  | .functions | .docs | .doc _ => false

/-! ## Reports -/

/-- one report, numbered -/
def reportLine (number : Nat) (e : Event) : String :=
  toString number ++ "|" ++ e.level.name ++ "|" ++ e.target ++ "|" ++ e.message ++ "\n"

/-- the reports that a verbosity shows -/
def shown (verbosity : Nat) (events : List Event) : List Event :=
  events.filter fun e => e.level.rank ≤ (Level.ofVerbosity verbosity).rank

/-- reports numbered from `number` on -/
def reportLines (number : Nat) : List Event → String
  | [] => ""
  | e :: rest => reportLine number e ++ reportLines (number + 1) rest

/-! ## Running -/

/-- what a run leaves behind -/
structure Outcome where
  code : Nat
  stdout : String
  stderr : String
deriving DecidableEq, Repr

def versionText : String := "infa-expr 0.1.0\n"

/-- the outcome of a command that was run -/
def Invocation.outcome (w : Wording) (i : Invocation) (input : StandardInput) : Outcome :=
  let traced := i.command.trace input
  let reports := reportLines 1 (shown i.verbosity traced.events)
  match traced.outcome with
  | .ok text => ⟨0, text ++ "\n", reports⟩
  | .error e => ⟨1, "", reports ++ e.message w ++ "\n"⟩

/-- the outcome of a command line without a command to run -/
def Stop.outcome (w : Wording) (args : List String) : Stop → Outcome
  | .usage => ⟨2, "", w.usage args⟩
  | .version => ⟨0, versionText, ""⟩
  | .help topic full => ⟨0, w.help topic.page full, ""⟩

/-- the outcome of a command line on a standard input -/
def run (w : Wording) (args : List String) (input : StandardInput) : Outcome :=
  match readArguments {} args with
  | .ok i => i.outcome w input
  | .error stop => stop.outcome w args

end Formula.CommandLine
