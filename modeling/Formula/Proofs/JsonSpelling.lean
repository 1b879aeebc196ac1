/-
The spellings of JSON.

A character of a string may stand as it is, by an escape of one letter, or by the codes of its UTF-16 units
(`CharSpelling`). A string is its characters between quotes, each in any of its spellings, and a bracket, a comma or a colon
is itself (`Lexeme.Spelling`). In a text the lexemes follow each other with any blanks between them (`Spread`).

`lexemes?_spread`: whatever the spellings and the blanks, the lexemes are read back. `unspaced_spread`: without the blanks
outside strings only the spellings are left.
-/
import Mathlib.Tactic
import Formula.Json.Reader

namespace Formula.Json

/-! ## Characters of a string -/

/-- the hexadecimal digit of value `k`, in either case -/
def IsHex (k : Nat) (c : Char) : Prop := k < 16 ∧ (c = Nat.digitChar k ∨ c = (Nat.digitChar k).toUpper)

/-- the UTF-16 units of a character -/
def units (c : Char) : List Nat :=
  if c.toNat < 0x10000 then [c.toNat]
  else [0xd800 + (c.toNat - 0x10000) / 0x400, 0xdc00 + (c.toNat - 0x10000) % 0x400]

/-- `\u` and the four hexadecimal digits of a unit -/
inductive UnitSpelling (n : Nat) : List Char → Prop where
  | intro {a b c d : Char} (ha : IsHex (n / 0x1000) a) (hb : IsHex (n / 0x100 % 16) b) (hc : IsHex (n / 16 % 16) c)
      (hd : IsHex (n % 16) d) : UnitSpelling n ['\\', 'u', a, b, c, d]

/-- the letters that stand for a character after a backslash -/
def letterEscapes : List (Char × Char) :=
  [('"', '"'), ('\\', '\\'), ('/', '/'), ('b', '\x08'), ('f', '\x0c'), ('n', '\n'), ('r', '\r'), ('t', '\t')]

/-- a character as it may stand in a string -/
inductive CharSpelling (c : Char) : List Char → Prop where
  | plain (hcontrol : 0x20 ≤ c.toNat) (hquote : c ≠ '"') (hbackslash : c ≠ '\\') : CharSpelling c [c]
  | letter {l : Char} (h : (l, c) ∈ letterEscapes) : CharSpelling c ['\\', l]
  | units {ws : List (List Char)} (h : List.Forall₂ UnitSpelling (units c) ws) : CharSpelling c ws.flatten

theorem hexDigit?_isHex {k : Nat} {c : Char} (h : IsHex k c) : hexDigit? c = some k := by
  have hall : ∀ k < 16, hexDigit? (Nat.digitChar k) = some k ∧ hexDigit? (Nat.digitChar k).toUpper = some k := by decide
  obtain ⟨hk, rfl | rfl⟩ := h
  · exact (hall k hk).1
  · exact (hall k hk).2

theorem codeUnit?_spelling {n : Nat} {w : List Char} (h : UnitSpelling n w) (rest : List Char) :
    codeUnit? (w ++ rest) = some n := by
  obtain ⟨ha, hb, hc, hd⟩ := h
  have hn : ((n / 0x1000 * 16 + n / 0x100 % 16) * 16 + n / 16 % 16) * 16 + n % 16 = n := by omega
  simp [codeUnit?, hexDigit?_isHex ha, hexDigit?_isHex hb, hexDigit?_isHex hc, hexDigit?_isHex hd, hn]

theorem length_unitSpelling {n : Nat} {w : List Char} (h : UnitSpelling n w) : w.length = 6 := by
  obtain ⟨⟩ := h
  rfl

theorem not_surrogate (c : Char) : c.toNat < 0xd800 ∨ 0xe000 ≤ c.toNat ∧ c.toNat < 0x110000 := by
  rcases c.valid with h | h
  · exact .inl h
  · exact .inr ⟨Nat.lt_of_succ_le h.1, h.2⟩

theorem escapedCode?_single {cs : List Char} {n : Nat} (h : codeUnit? cs = some n) (hn : n < 0xd800 ∨ 0xe000 ≤ n) :
    escapedCode? cs = some (Char.ofNat n, 6) := by
  have hhigh : ¬(0xd800 ≤ n ∧ n < 0xdc00) := by omega
  have hlow : ¬(0xdc00 ≤ n ∧ n < 0xe000) := by omega
  simp [escapedCode?, h, hhigh, hlow]

theorem escapedCode?_pair {cs : List Char} {high low : Nat} (hhigh : codeUnit? cs = some high)
    (hlow : codeUnit? (cs.drop 6) = some low) (hinHigh : 0xd800 ≤ high ∧ high < 0xdc00)
    (hinLow : 0xdc00 ≤ low ∧ low < 0xe000) :
    escapedCode? cs = some (Char.ofNat (0x10000 + (high - 0xd800) * 0x400 + (low - 0xdc00)), 12) := by
  simp [escapedCode?, hhigh, hlow, hinHigh, hinLow]

theorem escapedCode?_units {c : Char} {ws : List (List Char)} (h : List.Forall₂ UnitSpelling (units c) ws)
    (rest : List Char) : escapedCode? (ws.flatten ++ rest) = some (c, ws.flatten.length) := by
  have hvalid := not_surrogate c
  unfold units at h
  split_ifs at h with hc
  · -- one unit, which is no surrogate
    obtain ⟨w, _, hw, hnil, rfl⟩ := List.forall₂_cons_left_iff.1 h
    obtain rfl := List.forall₂_nil_left_iff.1 hnil
    have hcode := escapedCode?_single (codeUnit?_spelling hw rest) (by omega)
    simpa [length_unitSpelling hw] using hcode
  · -- a pair of surrogates, from which the code is put together
    obtain ⟨w, _, hw, htail, rfl⟩ := List.forall₂_cons_left_iff.1 h
    obtain ⟨w', _, hw', hnil, rfl⟩ := List.forall₂_cons_left_iff.1 htail
    obtain rfl := List.forall₂_nil_left_iff.1 hnil
    generalize hhigh : 0xd800 + (c.toNat - 0x10000) / 0x400 = high at hw
    generalize hlow : 0xdc00 + (c.toNat - 0x10000) % 0x400 = low at hw'
    have hdrop : (w ++ (w' ++ rest)).drop 6 = w' ++ rest := List.drop_left' (length_unitSpelling hw)
    have hpair := escapedCode?_pair (codeUnit?_spelling hw (w' ++ rest)) (hdrop ▸ codeUnit?_spelling hw' rest)
      (by omega) (by omega)
    have hcode : 0x10000 + (high - 0xd800) * 0x400 + (low - 0xdc00) = c.toNat := by omega
    rw [hcode, Char.ofNat_toNat] at hpair
    simpa [length_unitSpelling hw, length_unitSpelling hw'] using hpair

theorem exists_units (c : Char) : ∃ n ns, units c = n :: ns := by
  unfold units
  split_ifs
  · exact ⟨_, _, rfl⟩
  · exact ⟨_, _, rfl⟩

/-- the reader takes a character and the whole of its spelling -/
theorem writtenChar?_spelling {c : Char} {w : List Char} (h : CharSpelling c w) (rest : List Char) :
    writtenChar? (w ++ rest) = some (c, w.length) := by
  cases h with
  | plain hcontrol hquote hbackslash =>
    have hnot : ¬c.toNat < 0x20 := by omega
    simp [writtenChar?, hbackslash, hnot]
  | @letter l h =>
    have hall : ∀ p ∈ letterEscapes, p.1 ≠ 'u' ∧ letterEscape? p.1 = some p.2 := by decide
    obtain ⟨hu, hl⟩ : l ≠ 'u' ∧ letterEscape? l = some c := hall _ h
    simp [writtenChar?, hl]
  | @units ws h =>
    have hcode := escapedCode?_units h rest
    obtain ⟨n, ns, hunits⟩ := exists_units c
    rw [hunits] at h
    obtain ⟨w, ws', hw, -, rfl⟩ := List.forall₂_cons_left_iff.1 h
    obtain ⟨⟩ := hw
    exact hcode

/-- no spelling starts with the quote that ends a string -/
theorem exists_spelling {c : Char} {w : List Char} (h : CharSpelling c w) : ∃ x w', w = x :: w' ∧ x ≠ '"' := by
  cases h with
  | plain _ hquote _ => exact ⟨c, [], rfl, hquote⟩
  | @letter l h => exact ⟨'\\', [l], rfl, by decide⟩
  | units h =>
    obtain ⟨n, ns, hunits⟩ := exists_units c
    rw [hunits] at h
    obtain ⟨w, ws', ⟨_, _, _, _⟩, -, rfl⟩ := List.forall₂_cons_left_iff.1 h
    exact ⟨'\\', _, rfl, by decide⟩

/-! ## Strings -/

theorem stringBody?_skip (w rest : List Char) : stringBody? w.length (w ++ rest) = stringBody? 0 rest := by
  induction w with
  | nil => rfl
  | cons c w ih => exact ih

theorem stringBody?_char {c : Char} {w : List Char} (h : CharSpelling c w) (rest : List Char) :
    stringBody? 0 (w ++ rest) = (stringBody? 0 rest).map fun (body, rest) => (c :: body, rest) := by
  have hchar := writtenChar?_spelling h rest
  obtain ⟨x, w', rfl, hx⟩ := exists_spelling h
  rw [List.cons_append] at hchar
  rw [List.cons_append, stringBody?, if_neg hx, hchar]
  simp only [List.length_cons, Nat.add_sub_cancel, stringBody?_skip]

theorem stringBody?_spelled {s : List Char} {ws : List (List Char)} (h : List.Forall₂ CharSpelling s ws)
    (rest : List Char) : stringBody? 0 (ws.flatten ++ '"' :: rest) = some (s, rest) := by
  induction h with
  | nil => rfl
  | cons hc _ ih => rw [List.flatten_cons, List.append_assoc, stringBody?_char hc, ih, Option.map_some]

/-! ## Lexemes -/

/-- a lexeme as it may be written; numbers and the three words are left out -/
inductive Lexeme.Spelling : Lexeme → List Char → Prop where
  | beginArray : Spelling .beginArray ['[']
  | endArray : Spelling .endArray [']']
  | beginObject : Spelling .beginObject ['\x7b']
  | endObject : Spelling .endObject ['\x7d']
  | comma : Spelling .comma [',']
  | colon : Spelling .colon [':']
  | string {s : String} {ws : List (List Char)} (h : List.Forall₂ CharSpelling s.toList ws) :
      Spelling (.string s) ('"' :: (ws.flatten ++ ['"']))

/-- the reader takes a lexeme and the whole of its spelling -/
theorem splitLexeme?_spelling {l : Lexeme} {w : List Char} (h : l.Spelling w) (rest : List Char) :
    splitLexeme? (w ++ rest) = some (l, rest) := by
  cases h with
  | beginArray | endArray | beginObject | endObject | comma | colon => rfl
  | @string s ws h =>
    have hbody := stringBody?_spelled h rest
    simp [splitLexeme?, hbody]

theorem exists_lexemeSpelling {l : Lexeme} {w : List Char} (h : l.Spelling w) :
    ∃ x w', w = x :: w' ∧ isBlank x = false := by
  cases h <;> exact ⟨_, _, rfl, by decide⟩

theorem lexemes?_skip (w rest : List Char) : lexemes? w.length (w ++ rest) = lexemes? 0 rest := by
  induction w with
  | nil => rfl
  | cons c w ih => exact ih

theorem lexemes?_blank {c : Char} (hc : isBlank c = true) (rest : List Char) : lexemes? 0 (c :: rest) = lexemes? 0 rest := by
  rw [lexemes?, if_pos hc]

theorem lexemes?_lexeme {l : Lexeme} {w : List Char} (h : l.Spelling w) (rest : List Char) :
    lexemes? 0 (w ++ rest) = (lexemes? 0 rest).map (l :: ·) := by
  have hsplit := splitLexeme?_spelling h rest
  obtain ⟨x, w', rfl, hx⟩ := exists_lexemeSpelling h
  have hlength : (w' ++ rest).length - rest.length = w'.length := by simp
  rw [List.cons_append] at hsplit
  rw [List.cons_append, lexemes?, hx, hsplit]
  simp only [Bool.false_eq_true, if_false, hlength, lexemes?_skip]

/-! ## Texts -/

/-- the words in order, with blanks before, between and after them -/
inductive Spread : List (List Char) → List Char → Prop where
  | nil : Spread [] []
  | blank {c : Char} {words : List (List Char)} {cs : List Char} (hc : isBlank c = true) (h : Spread words cs) :
      Spread words (c :: cs)
  | word (w : List Char) {words : List (List Char)} {cs : List Char} (h : Spread words cs) : Spread (w :: words) (w ++ cs)

namespace Spread

theorem flatten (words : List (List Char)) : Spread words words.flatten := by
  induction words with
  | nil => exact .nil
  | cons w words ih => exact .word w ih

theorem append {words words' : List (List Char)} {cs cs' : List Char} (h : Spread words cs) (h' : Spread words' cs') :
    Spread (words ++ words') (cs ++ cs') := by
  induction h with
  | nil => exact h'
  | blank hc _ ih => exact .blank hc ih
  | word w _ ih =>
    rw [List.append_assoc]
    exact .word w ih

theorem blanks {blanks : List Char} (h : ∀ c ∈ blanks, isBlank c = true) : Spread [] blanks := by
  induction blanks with
  | nil => exact .nil
  | cons c blanks ih =>
    obtain ⟨hc, hblanks⟩ := List.forall_mem_cons.1 h
    exact .blank hc (ih hblanks)

end Spread

/-- **Lexemes are read back from any of their spellings**, however they are spread -/
theorem lexemes?_spread {ls : List Lexeme} {words : List (List Char)} {cs : List Char}
    (hwords : List.Forall₂ Lexeme.Spelling ls words) (h : Spread words cs) : lexemes? 0 cs = some ls := by
  induction h generalizing ls with
  | nil =>
    obtain rfl := List.forall₂_nil_right_iff.1 hwords
    rfl
  | blank hc _ ih => rw [lexemes?_blank hc, ih hwords]
  | word w _ ih =>
    obtain ⟨l, ls', hl, hls, rfl⟩ := List.forall₂_cons_right_iff.1 hwords
    rw [lexemes?_lexeme hl, ih hls, Option.map_some]

/-! ## Texts without blanks -/

/-- a place in a JSON text -/
inductive Place where
  | outside
  | inString
  /-- in a string, after a backslash -/
  | escaped
deriving DecidableEq, Repr

/-- the characters from some place on, but no blanks outside strings -/
def unspacedFrom : Place → List Char → List Char
  | _, [] => []
  | .outside, c :: cs =>
    if c = '"' then c :: unspacedFrom .inString cs
    else if isBlank c then unspacedFrom .outside cs
    else c :: unspacedFrom .outside cs
  | .inString, c :: cs =>
    if c = '"' then c :: unspacedFrom .outside cs
    else if c = '\\' then c :: unspacedFrom .escaped cs
    else c :: unspacedFrom .inString cs
  | .escaped, c :: cs => c :: unspacedFrom .inString cs

/-- a JSON text without the blanks outside its strings -/
def unspaced (text : String) : String := String.ofList (unspacedFrom .outside text.toList)

theorem unspacedFrom_plain {c : Char} (hquote : c ≠ '"') (hbackslash : c ≠ '\\') (rest : List Char) :
    unspacedFrom .inString (c :: rest) = c :: unspacedFrom .inString rest := by
  rw [unspacedFrom, if_neg hquote, if_neg hbackslash]

theorem unspacedFrom_escape (l : Char) (rest : List Char) :
    unspacedFrom .inString ('\\' :: l :: rest) = '\\' :: l :: unspacedFrom .inString rest := by
  simp [unspacedFrom]

theorem unspacedFrom_hex {k : Nat} {c : Char} (h : IsHex k c) (rest : List Char) :
    unspacedFrom .inString (c :: rest) = c :: unspacedFrom .inString rest := by
  have hall : ∀ k < 16, (Nat.digitChar k ≠ '"' ∧ Nat.digitChar k ≠ '\\') ∧
      (Nat.digitChar k).toUpper ≠ '"' ∧ (Nat.digitChar k).toUpper ≠ '\\' := by decide
  obtain ⟨hk, rfl | rfl⟩ := h
  · exact unspacedFrom_plain (hall k hk).1.1 (hall k hk).1.2 rest
  · exact unspacedFrom_plain (hall k hk).2.1 (hall k hk).2.2 rest

theorem unspacedFrom_unit {n : Nat} {w : List Char} (h : UnitSpelling n w) (rest : List Char) :
    unspacedFrom .inString (w ++ rest) = w ++ unspacedFrom .inString rest := by
  obtain ⟨ha, hb, hc, hd⟩ := h
  simp only [List.cons_append, List.nil_append, unspacedFrom_escape, unspacedFrom_hex ha, unspacedFrom_hex hb,
    unspacedFrom_hex hc, unspacedFrom_hex hd]

theorem unspacedFrom_units {ns : List Nat} {ws : List (List Char)} (h : List.Forall₂ UnitSpelling ns ws) (rest : List Char) :
    unspacedFrom .inString (ws.flatten ++ rest) = ws.flatten ++ unspacedFrom .inString rest := by
  induction h with
  | nil => rfl
  | cons hw _ ih => rw [List.flatten_cons, List.append_assoc, unspacedFrom_unit hw, ih, List.append_assoc]

theorem unspacedFrom_char {c : Char} {w : List Char} (h : CharSpelling c w) (rest : List Char) :
    unspacedFrom .inString (w ++ rest) = w ++ unspacedFrom .inString rest := by
  cases h with
  | plain _ hquote hbackslash => exact unspacedFrom_plain hquote hbackslash rest
  | letter h => exact unspacedFrom_escape _ rest
  | units h => exact unspacedFrom_units h rest

theorem unspacedFrom_body {s : List Char} {ws : List (List Char)} (h : List.Forall₂ CharSpelling s ws) (rest : List Char) :
    unspacedFrom .inString (ws.flatten ++ '"' :: rest) = ws.flatten ++ '"' :: unspacedFrom .outside rest := by
  induction h with
  | nil => simp [unspacedFrom]
  | cons hc _ ih => rw [List.flatten_cons, List.append_assoc, unspacedFrom_char hc, ih, List.append_assoc]

/-- nothing is left out of a lexeme, and the text behind it is outside strings again -/
theorem unspacedFrom_lexeme {l : Lexeme} {w : List Char} (h : l.Spelling w) (rest : List Char) :
    unspacedFrom .outside (w ++ rest) = w ++ unspacedFrom .outside rest := by
  cases h with
  | beginArray | endArray | beginObject | endObject | comma | colon => rfl
  | string h => simp [unspacedFrom, unspacedFrom_body h]

/-- **Without the blanks outside strings the spellings stand close together** -/
theorem unspacedFrom_spread {ls : List Lexeme} {words : List (List Char)} {cs : List Char}
    (hwords : List.Forall₂ Lexeme.Spelling ls words) (h : Spread words cs) : unspacedFrom .outside cs = words.flatten := by
  induction h generalizing ls with
  | nil => rfl
  | @blank c _ _ hc _ ih =>
    have hquote : c ≠ '"' := by
      rintro rfl
      cases hc
    rw [unspacedFrom, if_neg hquote, if_pos hc, ih hwords]
  | word w _ ih =>
    obtain ⟨l, ls', hl, hls, rfl⟩ := List.forall₂_cons_right_iff.1 hwords
    rw [unspacedFrom_lexeme hl, ih hls, List.flatten_cons]

end Formula.Json
