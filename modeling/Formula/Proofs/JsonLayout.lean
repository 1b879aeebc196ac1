/-
The layout of indented JSON.

The indented text of a value is its lexemes with something between any two neighbours, and `laidOut` says what, from left to
right and without regard to the value: a new line behind an opening bracket, behind a comma and before a closing bracket,
one space behind a colon, and nothing elsewhere or between brackets that hold nothing. A new line is indented by two spaces
for each bracket that is open there.

A value leaves as many brackets open as it finds, and what follows it is laid out as if nothing had been before it
(`laidAs_indented`); so `toList_pretty`: rendering a value with indentation lays out its lexemes.
-/
import Mathlib.Tactic
import Formula.Proofs.JsonText

namespace Formula.Json

namespace Lexeme

/-- an opening bracket -/
def opens : Lexeme → Bool
  | .beginArray | .beginObject => true
  | _ => false

/-- a closing bracket -/
def closes : Lexeme → Bool
  | .endArray | .endObject => true
  | _ => false

theorem closes_of_opens {l : Lexeme} (h : l.opens = true) : l.closes = false := by
  cases l with
  | beginArray | beginObject => rfl
  | _ => cases h

/-- how many brackets are open behind a lexeme -/
def nest (depth : Nat) : Lexeme → Nat
  | .beginArray | .beginObject => depth + 1
  | .endArray | .endObject => depth - 1
  | _ => depth

end Lexeme

/-- a new line, two spaces deeper for each bracket that is open -/
def lineStart (depth : Nat) : List Char := '\n' :: List.replicate (2 * depth) ' '

theorem toList_newline (depth : Nat) : (newline depth).toList = lineStart depth := by
  simp [newline, lineStart]

/-- a new line if a closing bracket comes next -/
def breakBefore (depth : Nat) (next? : Option Lexeme) : List Char :=
  if next?.any Lexeme.closes then lineStart (depth - 1) else []

/-- what stands between a lexeme and the next one, if so many brackets are open between them -/
def Lexeme.gap (depth : Nat) (next? : Option Lexeme) : Lexeme → List Char
  | .beginArray | .beginObject => if next?.any Lexeme.closes then [] else lineStart depth
  | .comma => lineStart depth
  | .colon => [' ']
  | _ => breakBefore depth next?

/-- lexemes on lines, the first of them with so many brackets open before it -/
def laidOut (depth : Nat) : List Lexeme → List Char
  | [] => []
  | l :: rest => l.text ++ (l.gap (l.nest depth) rest.head? ++ laidOut (l.nest depth) rest)

/-- lexemes on lines that go on behind a value -/
def laidBehind (depth : Nat) (rest : List Lexeme) : List Char := breakBefore depth rest.head? ++ laidOut depth rest

/-- the lexemes do not start with a closing bracket, and are laid out as `text` whatever follows them -/
structure LaidAs (depth : Nat) (ls : List Lexeme) (text : List Char) : Prop where
  start : ∃ l more, ls = l :: more ∧ l.closes = false
  laid : ∀ rest, laidOut depth (ls ++ rest) = text ++ laidBehind depth rest

variable {depth : Nat}

theorem laidOut_opener {l : Lexeme} (h : l.opens = true) (rest : List Lexeme) :
    laidOut depth (l :: rest) =
      l.text ++ ((if rest.head?.any Lexeme.closes then [] else lineStart (depth + 1)) ++ laidOut (depth + 1) rest) := by
  cases l with
  | beginArray | beginObject => rfl
  | _ => cases h

theorem laidOut_closer {l : Lexeme} (h : l.closes = true) (rest : List Lexeme) :
    laidOut (depth + 1) (l :: rest) = l.text ++ laidBehind depth rest := by
  cases l with
  | endArray | endObject => rfl
  | _ => cases h

/-- elements behind the first, each on a line of its own -/
theorem laidBehind_more {parts : List (List Lexeme)} {texts : List (List Char)}
    (h : List.Forall₂ (LaidAs (depth + 1)) parts texts) {closer : Lexeme} (hcloser : closer.closes = true)
    (rest : List Lexeme) :
    laidBehind (depth + 1) (parts.flatMap ([.comma] ++ ·) ++ closer :: rest) =
      texts.flatMap (',' :: lineStart (depth + 1) ++ ·) ++ (lineStart depth ++ laidOut (depth + 1) (closer :: rest)) := by
  induction h with
  | nil => simp [laidBehind, breakBefore, hcloser]
  | @cons part text parts texts hpart _ ih =>
    have hcomma (tail : List Lexeme) : laidBehind (depth + 1) (.comma :: (part ++ tail)) =
        ',' :: (lineStart (depth + 1) ++ laidOut (depth + 1) (part ++ tail)) := rfl
    simp only [List.flatMap_cons, List.append_assoc, List.cons_append, List.nil_append] at ih ⊢
    rw [hcomma, hpart.laid, ih]

/-- **Elements between brackets** -/
theorem laidAs_block {opener closer : Lexeme} (hopener : opener.opens = true) (hcloser : closer.closes = true)
    {parts : List (List Lexeme)} {elements : List String}
    (h : List.Forall₂ (fun part element => LaidAs (depth + 1) part element.toList) parts elements) :
    LaidAs depth (opener :: ([.comma].intercalate parts ++ [closer]))
      (block (String.ofList opener.text) (String.ofList closer.text) depth elements).toList := by
  refine ⟨⟨opener, _, rfl, Lexeme.closes_of_opens hopener⟩, fun rest => ?_⟩
  rw [List.cons_append, List.append_assoc, List.singleton_append, laidOut_opener hopener]
  cases h with
  | nil => simp [block, hcloser, laidOut_closer hcloser]
  | @cons part element parts elements hpart hmore =>
    obtain ⟨l, ls, hstart, hl⟩ := hpart.start
    have hhead : ([Lexeme.comma].intercalate (part :: parts) ++ closer :: rest).head? = some l := by
      rw [intercalate_cons, hstart]
      rfl
    have htexts : List.Forall₂ (LaidAs (depth + 1)) parts (elements.map String.toList) :=
      List.forall₂_map_right_iff.2 hmore
    have hrest := laidBehind_more htexts hcloser rest
    rw [hhead, intercalate_cons, List.append_assoc, hpart.laid, hrest, laidOut_closer hcloser]
    simp [block, hl, toList_newline, String.toList_intercalate, intercalate_cons]

/-- **A value is laid out as its indented text**, whatever follows it -/
theorem laidAs_indented (j : Json) (depth : Nat) : LaidAs depth j.lexemes (j.indented depth).toList := by
  induction j using values_induction generalizing depth with
  | null | bool _ | number _ | string _ => exact ⟨⟨_, _, rfl, rfl⟩, fun rest => rfl⟩
  | array items ih =>
    rw [indented, indentedItems_eq, lexemes_array]
    refine laidAs_block rfl rfl ?_
    rw [List.forall₂_map_left_iff, List.forall₂_map_right_iff]
    exact List.forall₂_same.2 fun j hj => ih j hj (depth + 1)
  | object fields ih =>
    rw [indented, indentedFields_eq, lexemes_object]
    refine laidAs_block rfl rfl ?_
    rw [List.forall₂_map_left_iff, List.forall₂_map_right_iff]
    refine List.forall₂_same.2 fun f hf => ⟨⟨_, _, rfl, rfl⟩, fun rest => ?_⟩
    have hname (tail : List Lexeme) : laidOut (depth + 1) (.string f.1 :: .colon :: tail) =
        (stringText f.1).toList ++ (':' :: ' ' :: laidOut (depth + 1) tail) := rfl
    rw [fieldLexemes, List.cons_append, List.cons_append, hname, (ih f hf (depth + 1)).laid]
    simp

/-- **The text with one element a line** is the lexemes laid out on lines -/
theorem toList_pretty (j : Json) : j.pretty.toList = laidOut 0 j.lexemes := by
  have hlaid := (laidAs_indented j 0).laid []
  rw [List.append_nil] at hlaid
  rw [hlaid, pretty]
  exact (List.append_nil _).symm

/-- brackets that hold nothing stay on their line -/
example :
    (Json.object [("a", .array [.null, .array []]), ("b", .bool true)]).pretty =
      "\x7b\n  \"a\": [\n    null,\n    []\n  ],\n  \"b\": true\n\x7d" := by
  decide +kernel

end Formula.Json
