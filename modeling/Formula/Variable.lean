/-
Variables: a name, a kind and the text of a value. A name that starts with `$` marks a parameter, which is also replaced
inside string literals.
-/
import Formula.Node
import Formula.Text.Replace

namespace Formula

/-- a named value supplied with a formula -/
structure Variable where
  name : String
  kind : LeafKind
  value : String
deriving DecidableEq, Repr

namespace Variable

/-- parameters are also replaced inside string literals -/
def isParam (v : Variable) : Bool := v.name.toList.head? == some '$'

/-- replaces each parameter's name in `text` by its value, one parameter after the other, so that a later one sees the
text that an earlier one put in -/
def interpolate (vars : List Variable) (text : String) : String :=
  (vars.filter isParam).foldl (fun text v => Text.replaceAll text v.name v.value) text

end Variable

end Formula
