/-
Expression trees as JSON: a node is an object with its arguments and its tag, raw texts are strings.
-/
import Formula.Json
import Formula.Node

namespace Formula

mutual

/-- a node as JSON -/
def Node.toJson : Node → Json
  | ⟨tag, args⟩ => .object [("args", .array (Arg.toJsonList args)), ("tag", .string tag)]

/-- arguments as JSON -/
def Arg.toJsonList : List Arg → List Json
  | [] => []
  | .value text :: rest => .string text :: Arg.toJsonList rest
  | .node n :: rest => n.toJson :: Arg.toJsonList rest

end

end Formula
