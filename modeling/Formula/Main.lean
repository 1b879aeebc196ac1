/-
The program: arguments and standard input in, exit code and text out. Standard input is read only if the command needs it,
and not from a terminal.
-/
import Formula.CommandLine

namespace Formula.CommandLine

/-- pages of help with one entry a line, and the shortest complaints -/
def plainWording : Wording where
  help page _ :=
    let entries := page.commands ++ page.operand?.toList ++
      page.options.map fun entry => ("--" ++ entry.opt.long, entry.about?.getD "")
    lines (page.about?.toList ++ entries.map fun (name, about) => "  " ++ name ++ "  " ++ about) ++ "\n"
  usage args := "error: cannot read the arguments: " ++ " ".intercalate args ++ "\n"
  notJson _ := "not a JSON text"

/-- standard input, as far as the command needs it -/
def readInput (args : List String) : IO StandardInput := do
  match readArguments {} args with
  | .error _ => return .terminal
  | .ok i =>
    let stdin ← IO.getStdin
    if !i.command.needsInput || (← stdin.isTty) then return .terminal
    try return .piped (← stdin.readBinToEnd)
    catch e => return .broken (toString e)

end Formula.CommandLine

open Formula.CommandLine in
def main (args : List String) : IO UInt32 := do
  let outcome := run plainWording args (← readInput args)
  IO.eprint outcome.stderr
  IO.print outcome.stdout
  return outcome.code.toUInt32
