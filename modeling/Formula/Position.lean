/-
Where something stands in a formula's text: a byte offset from 0 in UTF-8, and a line and a column from 1. The column
counts characters, and only a newline ends a line. `after` moves a position over one character and `advance` over a run
of them, so the position of any place in a text is `advance` over what precedes it.
-/
namespace Formula

/-- a place in a text: byte offset, line, and column in characters -/
structure Position where
  offset : Nat
  line : Nat
  column : Nat
deriving DecidableEq, Repr, Inhabited

namespace Position

/-- the start of a text -/
def start : Position := ⟨0, 1, 1⟩

/-- the position just after the character `c` -/
def after (p : Position) (c : Char) : Position :=
  if c = '\n' then ⟨p.offset + c.utf8Size, p.line + 1, 1⟩ else ⟨p.offset + c.utf8Size, p.line, p.column + 1⟩

/-- the position just after all of `cs` -/
def advance (p : Position) (cs : List Char) : Position :=
  cs.foldl after p

@[simp]
theorem advance_nil (p : Position) : p.advance [] = p := rfl

@[simp]
theorem advance_cons (p : Position) (c : Char) (cs : List Char) : p.advance (c :: cs) = (p.after c).advance cs := rfl

theorem advance_append (p : Position) (cs ds : List Char) : p.advance (cs ++ ds) = (p.advance cs).advance ds :=
  List.foldl_append

@[simp]
theorem offset_after (p : Position) (c : Char) : (p.after c).offset = p.offset + c.utf8Size := by
  unfold after
  split <;> rfl

/-- offsets count the bytes that were passed -/
theorem offset_advance (p : Position) (cs : List Char) :
    (p.advance cs).offset = p.offset + (String.ofList cs).utf8ByteSize := by
  induction cs generalizing p with
  | nil => rfl
  | cons c cs ih =>
    rw [advance_cons, ih, offset_after, String.ofList_cons, String.utf8ByteSize_append, String.utf8ByteSize_singleton,
      Nat.add_assoc]

/-- lines count the newlines that were passed -/
theorem line_advance (p : Position) (cs : List Char) : (p.advance cs).line = p.line + cs.count '\n' := by
  induction cs generalizing p with
  | nil => rfl
  | cons c cs ih =>
    rw [advance_cons, ih, after, List.count_cons]
    by_cases hc : c = '\n'
    · simp only [hc, if_true, beq_self_eq_true]
      omega
    · simp [hc]

/-- `line:column`, the form used in messages -/
def text (p : Position) : String :=
  toString p.line ++ ":" ++ toString p.column

end Position

end Formula
