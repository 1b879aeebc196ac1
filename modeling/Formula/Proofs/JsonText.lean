/-
JSON texts and their values.

`Json.lexemes` lists the lexemes of a value with its fields as they are written, and a text of the value (`Json.IsText`) is
any spelling of them with any blanks between. Both renderings of a value that holds nothing but strings, arrays and objects
are texts of it (`isText_compact`, `isText_pretty`), and they differ in blanks outside strings only (`unspaced_pretty`).

`readWithin?_isText`: from any of its texts a value is read back with the fields of its objects arranged by name, of equal
names the last, as long as the limit allows for its depth. The limit never matters if it is the length of the text
(`readWithin?_length`).
-/
import Mathlib.Tactic
import Formula.Proofs.Joined
import Formula.Proofs.JsonSpelling

namespace Formula.Json

/-! ## Values from the bottom up -/

section BottomUp

variable {α : Type} (leaf : Json → α) (array : List α → α) (object : List (String × α) → α)

mutual

/-- a result for each value from the results for its parts -/
def bottomUp : Json → α
  | .array items => array (bottomUpItems items)
  | .object fields => object (bottomUpFields fields)
  | .null => leaf .null
  | .bool b => leaf (.bool b)
  | .number n => leaf (.number n)
  | .string s => leaf (.string s)

def bottomUpItems : List Json → List α
  | [] => []
  | item :: rest => bottomUp item :: bottomUpItems rest

def bottomUpFields : List (String × Json) → List (String × α)
  | [] => []
  | (name, value) :: rest => (name, bottomUp value) :: bottomUpFields rest

end

theorem bottomUp_array (items : List Json) :
    bottomUp leaf array object (.array items) = array (items.map (bottomUp leaf array object)) := by
  rw [bottomUp]
  congr 1
  induction items with
  | nil => rfl
  | cons item items ih => rw [bottomUpItems, ih, List.map_cons]

theorem bottomUp_object (fields : List (String × Json)) :
    bottomUp leaf array object (.object fields) =
      object (fields.map fun f => (f.1, bottomUp leaf array object f.2)) := by
  rw [bottomUp]
  congr 1
  induction fields with
  | nil => rfl
  | cons f fields ih => rw [bottomUpFields, ih, List.map_cons]

end BottomUp

/-- what holds of an array or an object if it holds of its parts, and of all other values, holds of every value -/
theorem values_induction {P : Json → Prop} (null : P .null) (bool : ∀ b, P (.bool b)) (number : ∀ n, P (.number n))
    (string : ∀ s, P (.string s)) (array : ∀ items, (∀ j ∈ items, P j) → P (.array items))
    (object : ∀ fields, (∀ f ∈ fields, P f.2) → P (.object fields)) (j : Json) : P j :=
  @Json.rec P (fun items => ∀ j ∈ items, P j) (fun fields => ∀ f ∈ fields, P f.2) (fun f => P f.2) null bool number string
    array object (by simp) (fun _ _ hj hitems => List.forall_mem_cons.2 ⟨hj, hitems⟩) (by simp)
    (fun _ _ hf hfields => List.forall_mem_cons.2 ⟨hf, hfields⟩) (fun _ _ hj => hj) j

/-! ## The lexemes of a value -/

/-- the lexemes of a value, the fields of objects in the order given -/
def lexemes : Json → List Lexeme :=
  bottomUp (fun | .string s => [.string s] | j => [.scalar j])
    (fun items => .beginArray :: ([.comma].intercalate items ++ [.endArray]))
    fun fields =>
      .beginObject :: ([.comma].intercalate (fields.map fun f => .string f.1 :: .colon :: f.2) ++ [.endObject])

/-- the lexemes of a field -/
def fieldLexemes (f : String × Json) : List Lexeme := .string f.1 :: .colon :: f.2.lexemes

theorem lexemes_array (items : List Json) :
    (Json.array items).lexemes = .beginArray :: ([.comma].intercalate (items.map lexemes) ++ [.endArray]) :=
  bottomUp_array _ _ _ items

theorem lexemes_object (fields : List (String × Json)) :
    (Json.object fields).lexemes =
      .beginObject :: ([.comma].intercalate (fields.map fieldLexemes) ++ [.endObject]) := by
  rw [lexemes, bottomUp_object, List.map_map]
  rfl

/-- how deep arrays and objects are nested in a value -/
def depth : Json → Nat :=
  bottomUp (fun _ => 0) (fun items => items.foldr max 0 + 1) fun fields => (fields.map Prod.snd).foldr max 0 + 1

theorem add_deepest_le_iff {depths : List Nat} {n limit : Nat} :
    n + (depths.foldr max 0 + 1) ≤ limit ↔ n < limit ∧ ∀ d ∈ depths, n + 1 + d ≤ limit := by
  induction depths with
  | nil => simp
  | cons d depths ih =>
    rw [List.foldr_cons, List.forall_mem_cons, and_left_comm, ← ih]
    omega

theorem add_depth_array_le_iff {items : List Json} {n limit : Nat} :
    n + (Json.array items).depth ≤ limit ↔ n < limit ∧ ∀ j ∈ items, n + 1 + j.depth ≤ limit := by
  rw [depth, bottomUp_array, add_deepest_le_iff, List.forall_mem_map]

theorem add_depth_object_le_iff {fields : List (String × Json)} {n limit : Nat} :
    n + (Json.object fields).depth ≤ limit ↔ n < limit ∧ ∀ f ∈ fields, n + 1 + f.2.depth ≤ limit := by
  rw [depth, bottomUp_object, add_deepest_le_iff, List.map_map, List.forall_mem_map]
  rfl

/-- the fields in order of their names, of equal names the last -/
def arrangeFields (fields : List (String × Json)) : List (String × Json) :=
  fields.foldl (fun arranged f => insertField f.1 f.2 arranged) []

/-- the value with the fields of all objects arranged -/
def arranged : Json → Json := bottomUp id .array fun fields => .object (arrangeFields fields)

theorem arranged_array (items : List Json) : (Json.array items).arranged = .array (items.map arranged) :=
  bottomUp_array _ _ _ items

theorem arranged_object (fields : List (String × Json)) :
    (Json.object fields).arranged = .object (arrangeFields (fields.map fun f => (f.1, f.2.arranged))) :=
  bottomUp_object _ _ _ fields

/-! ## Reading lexemes -/

namespace State

/-- the lexemes take the reader from one state to another -/
def Leads (limit : Nat) (s : State) (ls : List Lexeme) (s' : State) : Prop := ls.foldlM (step limit) s = some s'

variable {limit : Nat} {s s' s'' : State} {l : Lexeme} {ls ls' : List Lexeme}

theorem Leads.refl (s : State) : Leads limit s [] s := rfl

theorem Leads.cons (h : step limit s l = some s') (h' : Leads limit s' ls s'') : Leads limit s (l :: ls) s'' := by
  rw [Leads, List.foldlM_cons, h]
  exact h'

theorem Leads.append (h : Leads limit s ls s') (h' : Leads limit s' ls' s'') : Leads limit s (ls ++ ls') s'' := by
  rw [Leads, List.foldlM_append, h]
  exact h'

end State

open State

/-- wherever a value is due, and the limit allows for it, its lexemes deliver it -/
def Delivered (limit : Nat) (j : Json) : Prop :=
  ∀ (frames : List Frame) (s : State), frames.length + j.depth ≤ limit → deliver j.arranged frames = some s →
    Leads limit ⟨.value, frames⟩ j.lexemes s

section Delivered

variable {limit : Nat} {frames : List Frame}

/-- the first lexeme of a value does not end an array -/
theorem exists_lexemes (j : Json) : ∃ l ls, j.lexemes = l :: ls ∧ l ≠ .endArray := by
  cases j with
  | null => exact ⟨_, _, rfl, by simp⟩
  | bool b => exact ⟨_, _, rfl, by simp⟩
  | number n => exact ⟨_, _, rfl, by simp⟩
  | string s => exact ⟨_, _, rfl, by simp⟩
  | array items => exact ⟨_, _, lexemes_array items, by simp⟩
  | object fields => exact ⟨_, _, lexemes_object fields, by simp⟩

theorem step_firstItem {l : Lexeme} (h : l ≠ .endArray) :
    step limit ⟨.firstItem, frames⟩ l = step limit ⟨.value, frames⟩ l := by
  cases l with
  | endArray => exact absurd rfl h
  | _ => rfl

/-- the first item of an array is read like any other -/
theorem leads_firstItem {j : Json} {s : State} (h : Leads limit ⟨.value, frames⟩ j.lexemes s) :
    Leads limit ⟨.firstItem, frames⟩ j.lexemes s := by
  obtain ⟨l, ls, hl, hne⟩ := exists_lexemes j
  rw [hl, Leads, List.foldlM_cons] at h
  rw [hl, Leads, List.foldlM_cons, step_firstItem hne]
  exact h

/-- more items, each after a comma -/
theorem leads_items {items : List Json} (h : ∀ j ∈ items, j.Delivered limit)
    (hdepth : ∀ j ∈ items, frames.length + 1 + j.depth ≤ limit) (before : List Json) :
    Leads limit ⟨.separator, .array before :: frames⟩ ((items.map lexemes).flatMap ([.comma] ++ ·))
      ⟨.separator, .array ((items.map arranged).reverse ++ before) :: frames⟩ := by
  induction items generalizing before with
  | nil => exact .refl _
  | cons j items ih =>
    obtain ⟨hj, hitems⟩ := List.forall_mem_cons.1 h
    obtain ⟨hdj, hditems⟩ := List.forall_mem_cons.1 hdepth
    -- an open array keeps its items with the last one first
    have hrest := ih hitems hditems (j.arranged :: before)
    rw [List.map_cons, List.map_cons, List.reverse_cons, List.append_assoc, List.singleton_append]
    exact .cons rfl (.append (hj _ _ hdj rfl) hrest)

theorem delivered_array {items : List Json} (h : ∀ j ∈ items, j.Delivered limit) : (Json.array items).Delivered limit := by
  intro frames s hdepth hs
  obtain ⟨hroom, hitems⟩ := add_depth_array_le_iff.1 hdepth
  have hopen : step limit ⟨.value, frames⟩ .beginArray = some ⟨.firstItem, .array [] :: frames⟩ := if_pos hroom
  rw [arranged_array] at hs
  rw [lexemes_array]
  refine .cons hopen ?_
  cases items with
  | nil => exact .cons hs (.refl s)
  | cons j items =>
    -- the first item, then the others each after a comma, then the bracket
    obtain ⟨hj, hmore⟩ := List.forall_mem_cons.1 h
    obtain ⟨hdj, hdmore⟩ := List.forall_mem_cons.1 hitems
    have hfirst : Leads limit ⟨.firstItem, .array [] :: frames⟩ j.lexemes ⟨.separator, .array [j.arranged] :: frames⟩ :=
      leads_firstItem (hj _ _ hdj rfl)
    have hclose : step limit ⟨.separator, .array ((items.map arranged).reverse ++ [j.arranged]) :: frames⟩ .endArray =
        some s := by
      rw [← hs, ← List.reverse_cons]
      simp [step, continueWith, closeArray]
    rw [List.map_cons, intercalate_cons]
    exact .append (.append hfirst (leads_items hmore hdmore _)) (.cons hclose (.refl s))

/-- a field, once its name is due -/
theorem leads_field {f : String × Json} (h : f.2.Delivered limit) (hdepth : frames.length + 1 + f.2.depth ≤ limit)
    (before : List (String × Json)) (s : State)
    (hs : step limit s (.string f.1) = startField (.object before :: frames) f.1) :
    Leads limit s (fieldLexemes f)
      ⟨.separator, .object (insertField f.1 f.2.arranged before) :: frames⟩ :=
  .cons hs (.cons rfl (h _ _ hdepth rfl))

/-- more fields, each after a comma -/
theorem leads_fields {fields : List (String × Json)} (h : ∀ f ∈ fields, f.2.Delivered limit)
    (hdepth : ∀ f ∈ fields, frames.length + 1 + f.2.depth ≤ limit) (before : List (String × Json)) :
    Leads limit ⟨.separator, .object before :: frames⟩ ((fields.map fieldLexemes).flatMap ([.comma] ++ ·))
      ⟨.separator, .object ((fields.map fun f => (f.1, f.2.arranged)).foldl
        (fun arranged f => insertField f.1 f.2 arranged) before) :: frames⟩ := by
  induction fields generalizing before with
  | nil => exact .refl _
  | cons f fields ih =>
    obtain ⟨hf, hfields⟩ := List.forall_mem_cons.1 h
    obtain ⟨hdf, hdfields⟩ := List.forall_mem_cons.1 hdepth
    exact .cons rfl (.append (leads_field hf hdf before _ rfl) (ih hfields hdfields _))

theorem delivered_object {fields : List (String × Json)} (h : ∀ f ∈ fields, f.2.Delivered limit) :
    (Json.object fields).Delivered limit := by
  intro frames s hdepth hs
  obtain ⟨hroom, hfields⟩ := add_depth_object_le_iff.1 hdepth
  have hopen : step limit ⟨.value, frames⟩ .beginObject = some ⟨.firstName, .object [] :: frames⟩ := if_pos hroom
  rw [arranged_object] at hs
  rw [lexemes_object]
  refine .cons hopen ?_
  cases fields with
  | nil => exact .cons hs (.refl s)
  | cons f fields =>
    obtain ⟨hf, hmore⟩ := List.forall_mem_cons.1 h
    obtain ⟨hdf, hdmore⟩ := List.forall_mem_cons.1 hfields
    rw [List.map_cons, intercalate_cons]
    exact .append (.append (leads_field hf hdf [] _ rfl) (leads_fields hmore hdmore _)) (.cons hs (.refl s))

/-- **The lexemes of a value deliver it** -/
theorem delivered (limit : Nat) (j : Json) : j.Delivered limit := by
  induction j using values_induction with
  | null | bool _ | number _ | string _ =>
    intro frames s _ hs
    exact .cons hs (.refl s)
  | array items ih => exact delivered_array ih
  | object fields ih => exact delivered_object ih

end Delivered

/-! ## Texts -/

/-- `text` spells the lexemes of the value, with any blanks between them -/
def IsText (j : Json) (text : String) : Prop :=
  ∃ words, List.Forall₂ Lexeme.Spelling j.lexemes words ∧ Spread words text.toList

/-- **A value is read from any of its texts**, with its fields arranged -/
theorem readWithin?_isText {j : Json} {text : String} (h : j.IsText text) {limit : Nat} (hdepth : j.depth ≤ limit) :
    readWithin? limit text = some j.arranged := by
  obtain ⟨words, hwords, hspread⟩ := h
  have hrun : j.lexemes.foldlM (step limit) State.initial = some ⟨.finished j.arranged, []⟩ :=
    delivered limit j [] _ (by simpa using hdepth) rfl
  simp [readWithin?, lexemes?_spread hwords hspread, hrun, result?]

/-- each level of nesting takes a bracket -/
theorem depth_le_length (j : Json) : j.depth ≤ j.lexemes.length := by
  induction j using values_induction with
  | null | bool _ | number _ | string _ => exact Nat.zero_le _
  | array items ih =>
    rw [← Nat.zero_add (depth _), add_depth_array_le_iff, lexemes_array, List.length_cons, List.length_append]
    refine ⟨by omega, ?_⟩
    intro j hj
    have hpart : j.lexemes.length ≤ ([Lexeme.comma].intercalate (items.map lexemes)).length :=
      length_le_intercalate (List.mem_map_of_mem hj)
    have hdepth := ih j hj
    omega
  | object fields ih =>
    rw [← Nat.zero_add (depth _), add_depth_object_le_iff, lexemes_object, List.length_cons, List.length_append]
    refine ⟨by omega, ?_⟩
    intro f hf
    have hpart : (fieldLexemes f).length ≤ ([Lexeme.comma].intercalate (fields.map fieldLexemes)).length :=
      length_le_intercalate (List.mem_map_of_mem hf)
    have hdepth := ih f hf
    rw [fieldLexemes, List.length_cons, List.length_cons] at hpart
    omega

theorem length_le_of_spread {ls : List Lexeme} {words : List (List Char)} {cs : List Char}
    (hwords : List.Forall₂ Lexeme.Spelling ls words) (h : Spread words cs) : ls.length ≤ cs.length := by
  induction h generalizing ls with
  | nil =>
    obtain rfl := List.forall₂_nil_right_iff.1 hwords
    rfl
  | blank _ _ ih => exact (ih hwords).trans (Nat.le_succ _)
  | word w _ ih =>
    obtain ⟨l, ls', hl, hls, rfl⟩ := List.forall₂_cons_right_iff.1 hwords
    obtain ⟨x, w', rfl, -⟩ := exists_lexemeSpelling hl
    have hrest := ih hls
    simp only [List.length_cons, List.length_append]
    omega

/-- no text is nested deeper than it is long -/
theorem readWithin?_length {j : Json} {text : String} (h : j.IsText text) :
    readWithin? text.length text = some j.arranged := by
  apply readWithin?_isText h
  obtain ⟨words, hwords, hspread⟩ := h
  calc j.depth ≤ j.lexemes.length := depth_le_length j
    _ ≤ text.toList.length := length_le_of_spread hwords hspread
    _ = text.length := String.length_toList

/-! ## Renderings -/

/-- a lexeme as it is rendered -/
def Lexeme.text : Lexeme → List Char
  | .beginArray => ['[']
  | .endArray => [']']
  | .beginObject => ['\x7b']
  | .endObject => ['\x7d']
  | .comma => [',']
  | .colon => [':']
  | .string s => (stringText s).toList
  | .scalar value => value.compact.toList

/-- the lexemes of a value as they are rendered -/
def pieces (j : Json) : List (List Char) := j.lexemes.map Lexeme.text

theorem pieces_array (items : List Json) :
    (Json.array items).pieces = ['['] :: ([[',']].intercalate (items.map pieces) ++ [[']']]) := by
  rw [pieces, lexemes_array, List.map_cons, List.map_append, map_intercalate, List.map_map]
  rfl

theorem pieces_object (fields : List (String × Json)) :
    (Json.object fields).pieces =
      ['\x7b'] ::
        ([[',']].intercalate (fields.map fun f => (stringText f.1).toList :: [':'] :: f.2.pieces) ++ [['\x7d']]) := by
  rw [pieces, lexemes_object, List.map_cons, List.map_append, map_intercalate, List.map_map]
  rfl

theorem compactItems_eq (items : List Json) : compactItems items = items.map compact := by
  induction items with
  | nil => rfl
  | cons j items ih => rw [compactItems, ih, List.map_cons]

theorem compactFields_eq (fields : List (String × Json)) :
    compactFields fields = fields.map fun f => stringText f.1 ++ ":" ++ f.2.compact := by
  induction fields with
  | nil => rfl
  | cons f fields ih => rw [compactFields, ih, List.map_cons]

theorem indentedItems_eq (depth : Nat) (items : List Json) : indentedItems depth items = items.map (indented depth) := by
  induction items with
  | nil => rfl
  | cons j items ih => rw [indentedItems, ih, List.map_cons]

theorem indentedFields_eq (depth : Nat) (fields : List (String × Json)) :
    indentedFields depth fields = fields.map fun f => stringText f.1 ++ ": " ++ f.2.indented depth := by
  induction fields with
  | nil => rfl
  | cons f fields ih => rw [indentedFields, ih, List.map_cons]

/-- **The compact text is the lexemes without blanks** -/
theorem toList_compact (j : Json) : j.compact.toList = j.pieces.flatten := by
  induction j using values_induction with
  | null | bool _ | number _ | string _ => exact (List.append_nil _).symm
  | array items ih =>
    have hitems : items.map (String.toList ∘ compact) = items.map (List.flatten ∘ pieces) :=
      List.map_congr_left fun j hj => ih j hj
    rw [compact, compactItems_eq, pieces_array]
    simp [flatten_intercalate, String.toList_intercalate, hitems]
  | object fields ih =>
    have hfields : fields.map (String.toList ∘ fun f => stringText f.1 ++ ":" ++ f.2.compact) =
        fields.map (List.flatten ∘ fun f => (stringText f.1).toList :: [':'] :: f.2.pieces) :=
      List.map_congr_left fun f hf => by simp [ih f hf]
    rw [compact, compactFields_eq, pieces_object]
    simp [flatten_intercalate, String.toList_intercalate, hfields]

theorem spread_compact (j : Json) : Spread j.pieces j.compact.toList := by
  rw [toList_compact]
  exact .flatten _

theorem isBlank_newline {depth : Nat} : ∀ c ∈ (newline depth).toList, isBlank c = true := by
  intro c hc
  rw [newline, String.toList_append, List.mem_append] at hc
  rcases hc with hc | hc
  · obtain rfl : c = '\n' := by simpa using hc
    rfl
  · rw [String.toList_ofList] at hc
    obtain rfl : c = ' ' := List.eq_of_mem_replicate hc
    rfl

theorem spread_newline {depth : Nat} {words : List (List Char)} {cs : List Char} (h : Spread words cs) :
    Spread words ((newline depth).toList ++ cs) :=
  .append (.blanks isBlank_newline) h

/-- elements one a line -/
theorem spread_elements {parts : List (List (List Char))} {elements : List String} (depth : Nat)
    (h : List.Forall₂ (fun part element => Spread part element.toList) parts elements) :
    Spread ([[',']].intercalate parts) (("," ++ newline depth).intercalate elements).toList := by
  rw [String.toList_intercalate]
  cases h with
  | nil => exact .nil
  | cons hfirst hmore =>
    rw [List.map_cons, intercalate_cons, intercalate_cons]
    refine .append hfirst ?_
    induction hmore with
    | nil => exact .nil
    | cons hpart _ ih =>
      simp only [List.map_cons, List.flatMap_cons, String.toList_append, List.append_assoc, List.singleton_append] at ih ⊢
      exact .word [','] (spread_newline (.append hpart ih))

/-- an element list between brackets -/
theorem spread_block (opener closer : String) {parts : List (List (List Char))} {elements : List String} (depth : Nat)
    (h : List.Forall₂ (fun part element => Spread part element.toList) parts elements) :
    Spread (opener.toList :: ([[',']].intercalate parts ++ [closer.toList]))
      (block opener closer depth elements).toList := by
  have hclose : Spread [closer.toList] closer.toList := by simpa using Spread.flatten [closer.toList]
  cases helements : elements with
  | nil =>
    obtain rfl := List.forall₂_nil_right_iff.1 (helements ▸ h)
    rw [block, String.toList_append]
    exact .word _ hclose
  | cons element more =>
    rw [← helements]
    have hblock : block opener closer depth elements = opener ++ newline (depth + 1) ++
        ("," ++ newline (depth + 1)).intercalate elements ++ newline depth ++ closer := by
      rw [helements]
      rfl
    simp only [hblock, String.toList_append, List.append_assoc]
    exact .word _ (spread_newline (.append (spread_elements _ h) (spread_newline hclose)))

/-- **The indented text is the lexemes with blanks between them** -/
theorem spread_indented (j : Json) (depth : Nat) : Spread j.pieces (j.indented depth).toList := by
  induction j using values_induction generalizing depth with
  | null | bool _ | number _ | string _ => exact spread_compact _
  | array items ih =>
    rw [indented, indentedItems_eq, pieces_array]
    refine spread_block "[" "]" depth ?_
    rw [List.forall₂_map_left_iff, List.forall₂_map_right_iff]
    exact List.forall₂_same.2 fun j hj => ih j hj (depth + 1)
  | object fields ih =>
    rw [indented, indentedFields_eq, pieces_object]
    refine spread_block "\x7b" "\x7d" depth ?_
    rw [List.forall₂_map_left_iff, List.forall₂_map_right_iff]
    refine List.forall₂_same.2 ?_
    intro f hf
    simp only [String.toList_append, List.append_assoc]
    exact .word _ (.word [':'] (.blank (by rfl) (ih f hf (depth + 1))))

/-! ## Values of strings, arrays and objects -/

/-- a value that holds strings, arrays and objects only -/
inductive Textual : Json → Prop where
  | string (s : String) : Textual (.string s)
  | array {items : List Json} (h : ∀ j ∈ items, Textual j) : Textual (.array items)
  | object {fields : List (String × Json)} (h : ∀ f ∈ fields, Textual f.2) : Textual (.object fields)

theorem isHex_digitChar {k : Nat} (h : k < 16) : IsHex k (Nat.digitChar k) := ⟨h, .inl rfl⟩

theorem charSpelling_control {c : Char} (hc : c.toNat < 0x20) :
    CharSpelling c ('\\' :: 'u' :: '0' :: '0' :: hexByte c.toNat) := by
  have hhigh : c.toNat / 16 % 16 = c.toNat / 16 := Nat.mod_eq_of_lt (by omega)
  have hdigits : UnitSpelling c.toNat ('\\' :: 'u' :: '0' :: '0' :: hexByte c.toNat) := by
    refine .intro ?_ ?_ ?_ (isHex_digitChar (by omega))
    · rw [Nat.div_eq_of_lt (by omega)]
      exact isHex_digitChar (by decide)
    · rw [Nat.div_eq_of_lt (by omega)]
      exact isHex_digitChar (by decide)
    · rw [hhigh]
      exact isHex_digitChar (by omega)
  have hunits : units c = [c.toNat] := if_pos (by omega)
  have hall : List.Forall₂ UnitSpelling (units c) ['\\' :: 'u' :: '0' :: '0' :: hexByte c.toNat] := by
    rw [hunits]
    exact .cons hdigits .nil
  simpa using CharSpelling.units hall

/-- a rendered character is a spelling of it -/
theorem charSpelling_escapeChar (c : Char) : CharSpelling c (escapeChar c) := by
  unfold escapeChar
  split
  · exact .letter (by decide)
  · exact .letter (by decide)
  · exact .letter (by decide)
  · exact .letter (by decide)
  · exact .letter (by decide)
  · exact .letter (by decide)
  · exact .letter (by decide)
  · next hquote hbackslash _ _ _ _ _ =>
    split_ifs with hcontrol
    · exact charSpelling_control hcontrol
    · exact .plain (by omega) hquote hbackslash

theorem spelling_string (s : String) : (Lexeme.string s).Spelling (Lexeme.string s).text := by
  have hchars : List.Forall₂ CharSpelling s.toList (s.toList.map escapeChar) :=
    List.forall₂_map_right_iff.2 (List.forall₂_same.2 fun c _ => charSpelling_escapeChar c)
  have hstring := Lexeme.Spelling.string hchars
  rw [← List.flatMap_def] at hstring
  rw [Lexeme.text, stringText, String.toList_ofList]
  exact hstring

/-- all lexemes of such a value are rendered as they are spelled -/
theorem Textual.spelling {j : Json} (h : j.Textual) : ∀ l ∈ j.lexemes, l.Spelling l.text := by
  have hlisted : ∀ {parts : List (List Lexeme)}, (∀ part ∈ parts, ∀ l ∈ part, l.Spelling l.text) →
      ∀ l ∈ [Lexeme.comma].intercalate parts, l.Spelling l.text := by
    intro parts hparts l hl
    rcases mem_intercalate hl with hl | ⟨part, hpart, hl⟩
    · obtain rfl := List.mem_singleton.1 hl
      exact .comma
    · exact hparts part hpart l hl
  induction h with
  | string s => exact List.forall_mem_singleton.2 (spelling_string s)
  | array _ ih =>
    rw [lexemes_array]
    refine List.forall_mem_cons.2 ⟨.beginArray, List.forall_mem_append.2 ⟨?_, ?_⟩⟩
    · exact hlisted (List.forall_mem_map.2 ih)
    · exact List.forall_mem_singleton.2 .endArray
  | object _ ih =>
    rw [lexemes_object]
    refine List.forall_mem_cons.2 ⟨.beginObject, List.forall_mem_append.2 ⟨?_, ?_⟩⟩
    · refine hlisted (List.forall_mem_map.2 ?_)
      intro f hf
      exact List.forall_mem_cons.2 ⟨spelling_string f.1, List.forall_mem_cons.2 ⟨.colon, ih f hf⟩⟩
    · exact List.forall_mem_singleton.2 .endObject

namespace Textual

variable {j : Json}

theorem pieces (h : j.Textual) : List.Forall₂ Lexeme.Spelling j.lexemes j.pieces :=
  List.forall₂_map_right_iff.2 (List.forall₂_same.2 h.spelling)

/-- **Both renderings are texts of the value** -/
theorem isText_compact (h : j.Textual) : j.IsText j.compact := ⟨_, h.pieces, spread_compact j⟩

theorem isText_pretty (h : j.Textual) : j.IsText j.pretty := ⟨_, h.pieces, spread_indented j 0⟩

/-- **The renderings differ in blanks outside strings only** -/
theorem unspaced_pretty (h : j.Textual) : unspaced j.pretty = j.compact := by
  rw [unspaced, pretty, unspacedFrom_spread h.pieces (spread_indented j 0), ← toList_compact, String.ofList_toList]

end Textual

end Formula.Json
