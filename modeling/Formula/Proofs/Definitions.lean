/-
Variables defined by text.

A variable can be given in two notations: as `NAME:TYPE=VALUE`, which is cut at its first `=` and then at the last `:` before
it (`Variable.ofSpec_append`), and as an object in a JSON array, of which only the values of three fields matter, whatever
their order and spelling (`Variable.ofJson_arranged`). `definitions_agree`: every variable with a name can be given in JSON,
and every variable whose name has no `=` can be given in both notations, with the type in any mix of cases; what is read is
the variable that was meant.
-/
import Mathlib.Tactic
import Formula.Proofs.JsonText
import Formula.Proofs.Spacing
import Formula.Variable.Definition

namespace Formula

/-! ## Types -/

namespace LeafKind

/-- `type` names the kind, with each letter in either case -/
def NamedBy (kind : LeafKind) (type : String) : Prop :=
  List.Forall₂ (fun c d => c = d ∨ c = d.toLower) type.toList kind.tag.toList

instance (kind : LeafKind) (type : String) : Decidable (kind.NamedBy type) :=
  inferInstanceAs (Decidable (List.Forall₂ _ _ _))

variable {kind : LeafKind} {type : String}

theorem namedBy_tag (kind : LeafKind) : kind.NamedBy kind.tag := List.forall₂_same.2 fun _ _ => .inl rfl

theorem toUpper_tag {d : Char} (h : d ∈ kind.tag.toList) : d.toUpper = d ∧ d.toLower.toUpper = d := by
  have hall : (kind.tag.toList.all fun d => d.toUpper = d ∧ d.toLower.toUpper = d) = true := by cases kind <;> decide
  simpa using List.all_eq_true.1 hall d h

theorem NamedBy.toUpper (h : kind.NamedBy type) : type.toList.map Char.toUpper = kind.tag.toList := by
  have hletters : ∀ d ∈ kind.tag.toList, d.toUpper = d ∧ d.toLower.toUpper = d := fun d hd => toUpper_tag hd
  unfold NamedBy at h
  generalize kind.tag.toList = tag at h hletters ⊢
  generalize type.toList = letters at h ⊢
  induction h with
  | nil => rfl
  | cons hc _ ih =>
    obtain ⟨⟨hsame, hlower⟩, hrest⟩ := List.forall_mem_cons.1 hletters
    rw [List.map_cons, ih hrest]
    rcases hc with rfl | rfl
    · rw [hsame]
    · rw [hlower]

theorem NamedBy.ofText? (h : kind.NamedBy type) : LeafKind.ofText? type = some kind := by
  have htag : type.map Char.toUpper = kind.tag := String.toList_inj.1 (by rw [String.toList_map, h.toUpper])
  rw [LeafKind.ofText?, htag]
  cases kind <;> rfl

/-- the marks of the first notation are no part of a type -/
theorem NamedBy.not_mem (h : kind.NamedBy type) : ':' ∉ type.toList ∧ '=' ∉ type.toList := by
  have hmem : ∀ c ∈ type.toList, c.toUpper ∈ kind.tag.toList := by
    intro c hc
    rw [← h.toUpper]
    exact List.mem_map_of_mem hc
  have htag : ':' ∉ kind.tag.toList ∧ '=' ∉ kind.tag.toList := by cases kind <;> decide
  exact ⟨fun hc => htag.1 (hmem _ hc), fun hc => htag.2 (hmem _ hc)⟩

end LeafKind

namespace Variable

theorem readKind_namedBy {kind : LeafKind} {type : String} (h : kind.NamedBy type) (name? : Option String) :
    readKind name? type = .ok kind := by
  rw [readKind, h.ofText?]

/-! ## One variable as text -/

theorem splitFirst?_append {mark : Char} {before : List Char} (h : mark ∉ before) (after : List Char) :
    splitFirst? mark (before ++ mark :: after) = some (before, after) := by
  have hne := Lexer.bne_of_not_mem h
  simp [splitFirst?, List.dropWhile_append_of_pos hne, List.takeWhile_append_of_pos hne]

theorem splitLast?_append {mark : Char} {after : List Char} (h : mark ∉ after) (before : List Char) :
    splitLast? mark (before ++ mark :: after) = some (before, after) := by
  have hreverse : (before ++ mark :: after).reverse = after.reverse ++ mark :: before.reverse := by simp
  rw [splitLast?, hreverse, splitFirst?_append (by simpa using h)]
  simp

/-- **A variable is read from its first notation** -/
theorem ofSpec_append {v : Variable} (hname : v.name ≠ "") (heq : '=' ∉ v.name.toList) {type : String}
    (htype : v.kind.NamedBy type) : ofSpec (v.name ++ ":" ++ type ++ "=" ++ v.value) = .ok v := by
  obtain ⟨hcolon, htypeEq⟩ := htype.not_mem
  have htext : (v.name ++ ":" ++ type ++ "=" ++ v.value).toList =
      (v.name.toList ++ ':' :: type.toList) ++ '=' :: v.value.toList := by simp
  have hhead : '=' ∉ v.name.toList ++ ':' :: type.toList := by simp [heq, htypeEq]
  have hne : v.name.toList ≠ [] := by simpa using hname
  unfold ofSpec
  rw [htext, splitFirst?_append hhead]
  simp only [splitLast?_append hcolon, String.ofList_toList, readKind_namedBy htype]
  rfl

/-! ## A list of variables as JSON -/

/-- the fields of a variable in JSON, with its type as text -/
def fields (v : Variable) (type : String) : List (String × Json) :=
  [("name", .string v.name), ("type", .string type), ("value", .string v.value)]

/-- a variable in JSON -/
def toJson (v : Variable) : Json := .object (v.fields v.kind.tag)

/-- an object of three fields, in any order, that gives the variable -/
def GivenBy (v : Variable) (j : Json) : Prop :=
  ∃ type fields, v.kind.NamedBy type ∧ List.Perm fields (v.fields type) ∧ j = .object fields

theorem givenBy_toJson (v : Variable) : v.GivenBy v.toJson := ⟨_, _, v.kind.namedBy_tag, .refl _, rfl⟩

end Variable

namespace Json

theorem lookup_field (name key : String) (value : Json) (fields : List (String × Json)) :
    ((name, value) :: fields).lookup key = if key = name then some value else fields.lookup key := by
  rw [List.lookup_cons]
  by_cases hkey : key = name
  · simp [hkey]
  · rw [if_neg hkey, beq_eq_false_iff_ne.2 hkey]

theorem lookup_insertField (name key : String) (value : Json) (fields : List (String × Json)) :
    (insertField name value fields).lookup key = if key = name then some value else fields.lookup key := by
  induction fields with
  | nil => rw [insertField, lookup_field]
  | cons f fields ih =>
    obtain ⟨other, v⟩ := f
    unfold insertField
    by_cases hlt : name < other
    · rw [if_pos hlt, lookup_field]
    · rw [if_neg hlt]
      by_cases hsame : name = other
      · subst hsame
        rw [if_pos rfl, lookup_field, lookup_field]
        split_ifs <;> rfl
      · rw [if_neg hsame, lookup_field, ih, lookup_field]
        by_cases hkey : key = name
        · have hother : key ≠ other := fun h => hsame (hkey.symm.trans h)
          rw [if_neg hother, if_pos hkey, if_pos hkey]
        · rw [if_neg hkey, if_neg hkey]

/-- the last field of a name is found -/
theorem lookup_arrangeFields (fields : List (String × Json)) (key : String) :
    (arrangeFields fields).lookup key = fields.reverse.lookup key := by
  have hfold : ∀ before : List (String × Json),
      (fields.foldl (fun arranged f => insertField f.1 f.2 arranged) before).lookup key =
        (fields.reverse.lookup key).or (before.lookup key) := by
    induction fields with
    | nil => simp
    | cons f fields ih =>
      intro before
      rw [List.foldl_cons, ih, lookup_insertField, List.reverse_cons, List.lookup_append, Option.or_assoc, lookup_field]
      split_ifs <;> simp
  rw [arrangeFields, hfold]
  simp

theorem lookup_of_mem {fields : List (String × Json)} {name : String} {value : Json}
    (hnames : (fields.map Prod.fst).Nodup) (h : (name, value) ∈ fields) : fields.lookup name = some value := by
  obtain ⟨before, after, rfl⟩ := List.append_of_mem h
  rw [List.map_append, List.map_cons, List.nodup_append] at hnames
  refine List.lookup_eq_some_iff.2 ⟨before, after, rfl, ?_⟩
  intro f hf
  have hne : f.1 ≠ name := hnames.2.2 _ (List.mem_map_of_mem hf) _ List.mem_cons_self
  simpa using hne.symm

end Json

namespace Variable

variable {v : Variable} {vars : List Variable} {j : Json} {items : List Json}

/-- the three fields are found wherever they stand -/
theorem lookup_arranged {type : String} {fields : List (String × Json)} (h : List.Perm fields (v.fields type))
    (name s : String) (hmem : (name, Json.string s) ∈ v.fields type) :
    (Json.arrangeFields (fields.map fun f => (f.1, f.2.arranged))).lookup name = some (.string s) := by
  rw [Json.lookup_arrangeFields]
  apply Json.lookup_of_mem
  · have hnames : (fields.map Prod.fst).Nodup := (h.map Prod.fst).nodup_iff.2 (by simp [Variable.fields])
    rw [← List.map_reverse, List.map_map]
    simpa [Function.comp_def] using hnames
  · rw [List.mem_reverse]
    exact List.mem_map.2 ⟨_, h.mem_iff.2 hmem, rfl⟩

/-- an object that gives a variable is read as this variable -/
theorem ofJson_arranged (h : v.GivenBy j) (hname : v.name ≠ "") : ofJson j.arranged = .ok v := by
  obtain ⟨type, fields, htype, hperm, rfl⟩ := h
  have hfirst := lookup_arranged hperm "name" v.name (by simp [Variable.fields])
  have hsecond := lookup_arranged hperm "type" type (by simp [Variable.fields])
  have hthird := lookup_arranged hperm "value" v.value (by simp [Variable.fields])
  rw [Json.arranged_object]
  simp only [ofJson, nameOfJson, hfirst, if_neg hname, hsecond, hthird, Option.getD_some, kindOfJson, valueOfJson,
    readKind_namedBy htype]
  rfl

theorem mapM_arranged (h : List.Forall₂ GivenBy vars items) (hnames : ∀ v ∈ vars, v.name ≠ "") :
    (items.map Json.arranged).mapM ofJson = .ok vars := by
  induction h with
  | nil => rfl
  | cons hv _ ih =>
    obtain ⟨hname, hnames⟩ := List.forall_mem_cons.1 hnames
    rw [List.map_cons, List.mapM_cons, ofJson_arranged hv hname, ih hnames]
    rfl

theorem GivenBy.depth_le (h : v.GivenBy j) : 1 + j.depth ≤ 2 := by
  obtain ⟨type, fields, -, hperm, rfl⟩ := h
  have hstrings : ∀ f ∈ v.fields type, f.2.depth = 0 := by
    simp only [Variable.fields, List.forall_mem_cons]
    exact ⟨rfl, rfl, rfl, by simp⟩
  rw [Json.add_depth_object_le_iff]
  refine ⟨by decide, ?_⟩
  intro f hf
  rw [hstrings f (hperm.mem_iff.1 hf)]

theorem depth_givenBy (h : List.Forall₂ GivenBy vars items) : (Json.array items).depth ≤ 2 := by
  rw [← Nat.zero_add (Json.depth _), Json.add_depth_array_le_iff]
  refine ⟨by decide, ?_⟩
  induction h with
  | nil => simp
  | cons hv _ ih => exact List.forall_mem_cons.2 ⟨hv.depth_le, ih⟩

/-- **Variables are read from any JSON text that gives them** -/
theorem listOfJson_isText (h : List.Forall₂ GivenBy vars items) (hnames : ∀ v ∈ vars, v.name ≠ "") {text : String}
    (htext : (Json.array items).IsText text) : listOfJson text = .ok vars := by
  have hdepth : (Json.array items).depth ≤ Json.defaultMaxDepth := (depth_givenBy h).trans (by decide)
  rw [listOfJson, Json.read?, Json.readWithin?_isText htext hdepth, Json.arranged_array]
  exact mapM_arranged h hnames

theorem textual_toJson (v : Variable) : v.toJson.Textual := by
  refine .object ?_
  simp only [fields, List.forall_mem_cons]
  exact ⟨.string _, .string _, .string _, by simp⟩

end Variable

/-- **Both notations of a variable agree.** Variables with names are read, in order, from any JSON text of an array of
objects that give them by three strings, such as the rendered ones; and a variable whose name has no `=` is read from
`NAME:TYPE=VALUE`, whatever else its name and its value hold. The letters of a type may be in either case. -/
theorem definitions_agree {vars : List Variable} (hnames : ∀ v ∈ vars, v.name ≠ "") :
    (∀ items text, List.Forall₂ Variable.GivenBy vars items → (Json.array items).IsText text →
        Variable.listOfJson text = .ok vars) ∧
      Variable.listOfJson (Json.array (vars.map Variable.toJson)).compact = .ok vars ∧
      ∀ v ∈ vars, '=' ∉ v.name.toList → ∀ type, v.kind.NamedBy type →
        Variable.ofSpec (v.name ++ ":" ++ type ++ "=" ++ v.value) = .ok v := by
  refine ⟨fun items text h htext => Variable.listOfJson_isText h hnames htext, ?_, ?_⟩
  · have hgiven : List.Forall₂ Variable.GivenBy vars (vars.map Variable.toJson) :=
      List.forall₂_map_right_iff.2 (List.forall₂_same.2 fun v _ => v.givenBy_toJson)
    have htextual : (Json.array (vars.map Variable.toJson)).Textual :=
      .array (List.forall_mem_map.2 fun v _ => v.textual_toJson)
    exact Variable.listOfJson_isText hgiven hnames htextual.isText_compact
  · intro v hv heq type htype
    exact Variable.ofSpec_append (hnames v hv) heq htype

/-- marks of both notations in the name and in the value, a quote, a line end, and a character beyond 16 bits -/
def markedVar : Variable := ⟨"$a:\"b", .string, "x=y:z\n😀"⟩

/-- the marks in the name and in the value are not taken for those of the notation -/
theorem definitions_agree_marked :
    Variable.listOfJson
        "[\x7b\"name\":\"$a:\\\"b\",\"type\":\"STRING\",\"value\":\"x=y:z\\n😀\"\x7d]" = .ok [markedVar] ∧
      Variable.ofSpec "$a:\"b:sTrInG=x=y:z\n😀" = .ok markedVar := by
  have hnames : ∀ v ∈ [markedVar], v.name ≠ "" := by decide
  obtain ⟨-, hjson, hspec⟩ := definitions_agree hnames
  have htext : (Json.array ([markedVar].map Variable.toJson)).compact =
      "[\x7b\"name\":\"$a:\\\"b\",\"type\":\"STRING\",\"value\":\"x=y:z\\n😀\"\x7d]" := by decide +kernel
  have hmark : '=' ∉ markedVar.name.toList := by decide
  rw [htext] at hjson
  exact ⟨hjson, hspec markedVar List.mem_cons_self hmark "sTrInG" (by decide)⟩

end Formula
