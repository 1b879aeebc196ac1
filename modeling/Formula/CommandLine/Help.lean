/-
What the program says about itself: a line on each command, each operand and each option. A page of help is made from these
lines; how it is set is not decided here.
-/
import Formula.CommandLine.Arguments

namespace Formula.CommandLine

/-- an option as a page of help shows it -/
structure OptionEntry where
  opt : Opt
  about? : Option String
  /-- the name of its value, where it has a name of its own -/
  valueName? : Option String := none
  /-- the value that it has when it is not given -/
  default? : Option String := none
deriving DecidableEq, Repr

/-- what a page of help tells, names first -/
structure HelpPage where
  topic : HelpTopic
  about? : Option String
  commands : List (String × String) := []
  operand? : Option (String × String) := none
  options : List OptionEntry := []
deriving DecidableEq, Repr

/-- `help` and `version` are not explained by the program itself -/
def Opt.entry (opt : Opt) : OptionEntry :=
  match opt with
  | .verbose => { opt, about? := some "Log to stderr (-v for debug, -vv for trace)" }
  | .version | .help => { opt, about? := none }
  | .pretty => { opt, about? := some "Pretty-print the output" }
  | .var =>
    { opt
      about? := some "Variable as NAME:TYPE=VALUE, TYPE one of NUMBER, STRING, NULL (repeatable)"
      valueName? := some "NAME:TYPE=VALUE" }
  | .vars =>
    { opt
      about? := some
        "Variables as a JSON array of \x7b\"name\", \"type\", \"value\"\x7d objects, applied before any --var"
      valueName? := some "JSON" }
  | .maxDepth =>
    { opt
      about? := some "Deepest nesting of parentheses and calls accepted"
      default? := some (toString defaultMaxDepth) }

namespace CommandName

def about : CommandName → String
  | .eval => "Evaluate an expression and print the result"
  | .parse => "Parse an expression and print its tree as JSON"
  | .tokens => "Print the tokens of an expression"
  | .functions => "List all functions, marking the implemented ones with '*'"
  | .docs => "List documentation categories"
  | .doc => "Show documentation for a specific category"

/-- the name of a command's operand, and what is said about it -/
def operand? : CommandName → Option (String × String)
  | .eval | .parse | .tokens => some ("EXPRESSION", "The expression (reads from stdin if not provided)")
  | .doc => some ("CATEGORY", "Category name (use 'infa-expr docs' to list categories)")
  | .functions | .docs => none

end CommandName

/-- the page on a topic -/
def HelpTopic.page (topic : HelpTopic) : HelpPage :=
  let commands := CommandName.all.map fun name => (name.text, name.about)
  match topic with
  | .program =>
    { topic, commands
      about? := some "infa-expr - Evaluate transformation-language formulas against typed variables"
      options := globalOptions.map Opt.entry }
  | .command name => { topic, about? := some name.about, operand? := name.operand?, options := name.options.map Opt.entry }
  | .help => { topic, commands, about? := none }

end Formula.CommandLine
