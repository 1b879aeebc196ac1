/-
Expression trees. A node has a tag and arguments; an argument is raw text or another node. The tags `NUMBER`, `STRING` and
`NULL` mark leaves, whatever their arguments are. In the trees that come from formulas a leaf has exactly one raw text, an
operator two nodes, and a call any number of nodes; an operator or reserved word with nothing folded onto it is a
placeholder, which carries its own text.
-/
import Formula.Text.Quoted

namespace Formula

/-- the kinds of value -/
inductive LeafKind where
  | number
  | string
  | null
deriving DecidableEq, Repr

namespace LeafKind

/-- the tag of the leaves of this kind -/
def tag : LeafKind → String
  | .number => "NUMBER"
  | .string => "STRING"
  | .null => "NULL"

/-- the kind with this tag -/
def ofTag? (tag : String) : Option LeafKind :=
  if tag = "NUMBER" then some .number
  else if tag = "STRING" then some .string
  else if tag = "NULL" then some .null
  else none

/-- the kind named by `text` in any mix of ASCII cases -/
def ofText? (text : String) : Option LeafKind := ofTag? (text.map Char.toUpper)

/-- the complaint about a text that names no kind -/
def unknown (text : String) : String :=
  "unknown value type '" ++ text ++ "' (expected NUMBER, STRING or NULL)"

end LeafKind

mutual

/-- a node of an expression tree -/
structure Node where
  tag : String
  args : List Arg

/-- an argument of a node: raw text or a nested node -/
inductive Arg where
  | value (text : String)
  | node (n : Node)

end

/-- is `tag` the tag of a leaf? -/
def isLeafTag (tag : String) : Bool := (LeafKind.ofTag? tag).isSome

namespace Node

/-! ## Building -/

/-- a leaf of the given kind -/
def leaf (kind : LeafKind) (text : String) : Node := ⟨kind.tag, [.value text]⟩

/-- a number leaf; the text is expected to be canonical -/
def number (text : String) : Node := leaf .number text

def string (text : String) : Node := leaf .string text

/-- the null value -/
def null : Node := leaf .null LeafKind.null.tag

/-- a function call -/
def call (name : String) (args : List Node) : Node := ⟨name, args.map Arg.node⟩

/-- a binary operation -/
def binary (operator : String) (left right : Node) : Node := ⟨operator, [.node left, .node right]⟩

/-- an operator or reserved word standing for itself -/
def placeholder (text : String) : Node := ⟨text, [.value text]⟩

/-! ## Inspecting -/

def leafKind? (n : Node) : Option LeafKind := LeafKind.ofTag? n.tag

def isLeaf (n : Node) : Bool := isLeafTag n.tag

def isNull (n : Node) : Bool := n.tag == LeafKind.null.tag

/-- the raw text of a node that has nothing else -/
def value? (n : Node) : Option String :=
  match n.args with
  | [.value text] => some text
  | _ => none

/-- an operator or reserved word that nothing was folded onto -/
def isPlaceholder (n : Node) : Bool := !n.isLeaf && n.value?.isSome

/-- the nested nodes -/
def children (n : Node) : List Node :=
  n.args.filterMap fun
    | .node m => some m
    | .value _ => none

end Node

/-! ## Displaying -/

mutual

/-- `TAG(arg, arg)`, raw texts in quotes -/
def Node.display : Node → String
  | ⟨tag, args⟩ => tag ++ "(" ++ ", ".intercalate (Arg.displays args) ++ ")"

/-- the display of each argument -/
def Arg.displays : List Arg → List String
  | [] => []
  | .value text :: rest => Text.quoted text :: Arg.displays rest
  | .node n :: rest => n.display :: Arg.displays rest

end

/-! ## Equality -/

mutual

/-- decides whether two nodes are equal -/
def Node.decEq : (m n : Node) → Decidable (m = n)
  | ⟨s, as⟩, ⟨t, bs⟩ =>
    match instDecidableEqString s t, Arg.decEqList as bs with
    | isTrue hs, isTrue ha => isTrue (by rw [hs, ha])
    | isFalse hs, _ => isFalse (by simp [hs])
    | _, isFalse ha => isFalse (by simp [ha])

/-- decides whether two argument lists are equal -/
def Arg.decEqList : (as bs : List Arg) → Decidable (as = bs)
  | [], [] => isTrue rfl
  | [], _ :: _ => isFalse (by simp)
  | _ :: _, [] => isFalse (by simp)
  | .value s :: as, .value t :: bs =>
    match instDecidableEqString s t, Arg.decEqList as bs with
    | isTrue hs, isTrue ha => isTrue (by rw [hs, ha])
    | isFalse hs, _ => isFalse (by simp [hs])
    | _, isFalse ha => isFalse (by simp [ha])
  | .node m :: as, .node n :: bs =>
    match Node.decEq m n, Arg.decEqList as bs with
    | isTrue hs, isTrue ha => isTrue (by rw [hs, ha])
    | isFalse hs, _ => isFalse (by simp [hs])
    | _, isFalse ha => isFalse (by simp [ha])
  | .value _ :: _, .node _ :: _ => isFalse (by simp)
  | .node _ :: _, .value _ :: _ => isFalse (by simp)

end

instance : DecidableEq Node := Node.decEq

end Formula
