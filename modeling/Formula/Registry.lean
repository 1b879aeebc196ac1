/-
Implementations of functions by name. A function takes evaluated arguments and yields a node or an error. A registry maps
names to functions; registering a name again replaces its function, and the names are sorted to be listed.
-/
import Formula.Evaluation.Error
import Formula.Node
import Std.Data.TreeMap

namespace Formula

/-- what a function does to its evaluated arguments -/
abbrev Implementation := List Node → Except EvalError Node

/-- functions by name -/
structure Registry where
  functions : Std.TreeMap String Implementation

namespace Registry

def empty : Registry := ⟨∅⟩

/-- the function registered under `name` -/
def get? (r : Registry) (name : String) : Option Implementation := r.functions[name]?

def contains (r : Registry) (name : String) : Bool := r.functions.contains name

/-- registers a function, in place of any other of that name -/
def register (r : Registry) (name : String) (f : Implementation) : Registry := ⟨r.functions.insert name f⟩

/-- registers a function, and hands back the one whose place it takes -/
def replace (r : Registry) (name : String) (f : Implementation) : Option Implementation × Registry :=
  (r.get? name, r.register name f)

/-- the registered names, sorted -/
def names (r : Registry) : List String := r.functions.keys.mergeSort

end Registry

end Formula
