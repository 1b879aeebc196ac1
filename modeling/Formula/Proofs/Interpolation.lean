/-
Parameters put into a text.

To replace a name in a text is to cut the text at the occurrences of the name and to join the pieces by the value. Where
occurrences overlap, as those of `$$` in `$$$`, the leftmost one is cut out and the search goes on behind it. So the pieces
hold no occurrence, and each but the last runs up to the first occurrence that there is (`Text.Pieces`). Every text is cut
in this way by every name, and in one way only (`exists_pieces`, `Pieces.unique`); replacing joins just these pieces
(`replaceFrom_pieces`), and what it puts in is not searched again.

`interpolate_pieces`: one parameter is replaced like this, and several one after the other in the order of the list, so that
each is looked for in what the ones before it have left.
-/
import Mathlib.Tactic
import Formula.Variable

namespace Formula

namespace Text

/-! ## Cutting -/

/-- of all occurrences of `pattern` in `piece ++ pattern`, the first is the one at the end -/
def LeadsTo (pattern piece : List Char) : Prop :=
  ∀ before after, piece ++ pattern = before ++ pattern ++ after → before = piece

/-- the text cut at the occurrences of `pattern`, the leftmost first and without overlaps -/
structure Pieces (pattern text : List Char) (pieces : List (List Char)) : Prop where
  ne_nil : pieces ≠ []
  text_eq : text = pattern.intercalate pieces
  absent : ∀ piece ∈ pieces, ¬pattern <:+: piece
  first : ∀ piece ∈ pieces.dropLast, LeadsTo pattern piece

variable {pattern piece text : List Char} {pieces : List (List Char)}

theorem leadsTo_nil (pattern : List Char) : LeadsTo pattern [] := by
  intro before after h
  have hlength := congrArg List.length h
  simp only [List.nil_append, List.length_append] at hlength
  exact List.length_eq_zero_iff.1 (by omega)

theorem leadsTo_cons_iff {c : Char} :
    LeadsTo pattern (c :: piece) ↔ ¬pattern <+: c :: (piece ++ pattern) ∧ LeadsTo pattern piece := by
  constructor
  · refine fun h => ⟨?_, ?_⟩
    · rintro ⟨after, hafter⟩
      exact absurd (h [] after hafter.symm) (by simp)
    · intro before after heq
      exact (List.cons.inj (h (c :: before) after (congrArg (c :: ·) heq))).2
  · rintro ⟨hnot, h⟩ before after heq
    cases before with
    | nil => exact absurd ⟨after, heq.symm⟩ hnot
    | cons d before =>
      obtain ⟨rfl, htail⟩ := List.cons.inj heq
      rw [h before after htail]

instance decidableLeadsTo (pattern : List Char) : (piece : List Char) → Decidable (LeadsTo pattern piece)
  | [] => isTrue (leadsTo_nil pattern)
  | _ :: piece =>
    have := decidableLeadsTo pattern piece
    decidable_of_iff _ leadsTo_cons_iff.symm

/-- an occurrence inside the piece would come before the one at the end -/
theorem LeadsTo.absent (hpattern : pattern ≠ []) (h : LeadsTo pattern piece) : ¬pattern <:+: piece := by
  rintro ⟨before, after, rfl⟩
  have hlength := congrArg List.length (h before (after ++ pattern) (by simp))
  have hpos := List.length_pos_iff.2 hpattern
  simp only [List.length_append] at hlength
  omega

/-- a piece that leads to an occurrence is determined by the text -/
theorem LeadsTo.unique {piece' rest rest' : List Char} (h : LeadsTo pattern piece) (h' : LeadsTo pattern piece')
    (heq : piece ++ pattern ++ rest = piece' ++ pattern ++ rest') : piece = piece' ∧ rest = rest' := by
  have hpiece : piece = piece' := by
    rcases List.append_eq_append_iff.1 heq with ⟨more, hmore, -⟩ | ⟨more, hmore, -⟩
    · exact h' piece more hmore
    · exact (h piece' more hmore).symm
  subst hpiece
  exact ⟨rfl, List.append_cancel_left heq⟩

theorem exists_leadsTo (h : pattern <:+: text) : ∃ piece rest, text = piece ++ pattern ++ rest ∧ LeadsTo pattern piece := by
  induction text with
  | nil =>
    obtain rfl := List.infix_nil.1 h
    exact ⟨[], [], rfl, leadsTo_nil []⟩
  | cons c text ih =>
    by_cases hfront : pattern <+: c :: text
    · obtain ⟨rest, hrest⟩ := hfront
      exact ⟨[], rest, hrest.symm, leadsTo_nil pattern⟩
    · obtain ⟨piece, rest, rfl, hpiece⟩ := ih ((List.infix_cons_iff.1 h).resolve_left hfront)
      refine ⟨c :: piece, rest, rfl, leadsTo_cons_iff.2 ⟨?_, hpiece⟩⟩
      exact fun hmore => hfront (hmore.trans (List.prefix_append (c :: (piece ++ pattern)) rest))

/-! ## Pieces -/

theorem pieces_singleton_iff : Pieces pattern text [piece] ↔ text = piece ∧ ¬pattern <:+: piece := by
  constructor
  · intro h
    exact ⟨by rw [h.text_eq, List.intercalate_singleton], h.absent piece List.mem_cons_self⟩
  · rintro ⟨rfl, h⟩
    exact ⟨by simp, by rw [List.intercalate_singleton], by simpa using h, by simp⟩

/-- the first piece ends at the first occurrence, and the others are those of the text behind it -/
theorem pieces_cons_iff (hpattern : pattern ≠ []) (hpieces : pieces ≠ []) :
    Pieces pattern text (piece :: pieces) ↔
      ∃ rest, text = piece ++ pattern ++ rest ∧ LeadsTo pattern piece ∧ Pieces pattern rest pieces := by
  obtain ⟨next, pieces, rfl⟩ := List.exists_cons_of_ne_nil hpieces
  have hjoined : pattern.intercalate (piece :: next :: pieces) = piece ++ pattern ++ pattern.intercalate (next :: pieces) := by
    rw [List.intercalate_cons_cons, List.append_assoc]
  constructor
  · intro h
    obtain ⟨-, habsent⟩ := List.forall_mem_cons.1 h.absent
    obtain ⟨hleads, hfirst⟩ := List.forall_mem_cons.1 h.first
    exact ⟨_, h.text_eq.trans hjoined, hleads, hpieces, rfl, habsent, hfirst⟩
  · rintro ⟨rest, rfl, hleads, h⟩
    refine ⟨by simp, by rw [hjoined, h.text_eq], ?_, ?_⟩
    · exact List.forall_mem_cons.2 ⟨hleads.absent hpattern, h.absent⟩
    · exact List.forall_mem_cons.2 ⟨hleads, h.first⟩

/-- **Every text can be cut.** By induction on its length: the pattern, which is cut out, is not empty. -/
theorem exists_pieces (hpattern : pattern ≠ []) (text : List Char) : ∃ pieces, Pieces pattern text pieces := by
  by_cases hoccurs : pattern <:+: text
  · obtain ⟨piece, rest, rfl, hleads⟩ := exists_leadsTo hoccurs
    have hshorter : rest.length < (piece ++ pattern ++ rest).length := by
      have hpos := List.length_pos_iff.2 hpattern
      simp only [List.length_append]
      omega
    obtain ⟨pieces, hpieces⟩ := exists_pieces hpattern rest
    exact ⟨piece :: pieces, (pieces_cons_iff hpattern hpieces.ne_nil).2 ⟨rest, rfl, hleads, hpieces⟩⟩
  · exact ⟨[text], pieces_singleton_iff.2 ⟨rfl, hoccurs⟩⟩
termination_by text.length

/-- a text in several pieces holds the pattern -/
theorem Pieces.occurs (hpattern : pattern ≠ []) (hpieces : pieces ≠ []) (h : Pieces pattern text (piece :: pieces)) :
    pattern <:+: text := by
  obtain ⟨rest, heq, -, -⟩ := (pieces_cons_iff hpattern hpieces).1 h
  exact ⟨piece, rest, heq.symm⟩

/-- **A text is cut in one way only** -/
theorem Pieces.unique (hpattern : pattern ≠ []) {pieces' : List (List Char)} (h : Pieces pattern text pieces)
    (h' : Pieces pattern text pieces') : pieces = pieces' := by
  induction pieces generalizing text pieces' with
  | nil => exact absurd rfl h.ne_nil
  | cons piece pieces ih =>
    obtain ⟨piece', pieces', rfl⟩ := List.exists_cons_of_ne_nil h'.ne_nil
    by_cases hempty : pieces = [] <;> by_cases hempty' : pieces' = []
    · subst hempty hempty'
      rw [← (pieces_singleton_iff.1 h).1, ← (pieces_singleton_iff.1 h').1]
    · subst hempty
      obtain ⟨rfl, habsent⟩ := pieces_singleton_iff.1 h
      exact absurd (h'.occurs hpattern hempty') habsent
    · subst hempty'
      obtain ⟨rfl, habsent⟩ := pieces_singleton_iff.1 h'
      exact absurd (h.occurs hpattern hempty) habsent
    · obtain ⟨rest, rfl, hleads, hrest⟩ := (pieces_cons_iff hpattern hempty).1 h
      obtain ⟨rest', heq, hleads', hrest'⟩ := (pieces_cons_iff hpattern hempty').1 h'
      obtain ⟨rfl, rfl⟩ := hleads.unique hleads' heq
      rw [ih hrest hrest']

/-! ## Replacing -/

variable (replacement : List Char)

theorem replaceFrom_skip (covered rest : List Char) :
    replaceFrom pattern replacement covered.length (covered ++ rest) = replaceFrom pattern replacement 0 rest := by
  induction covered with
  | nil => rfl
  | cons c covered ih => rw [List.length_cons, List.cons_append, replaceFrom, ih]

theorem replaceFrom_absent (h : ¬pattern <:+: text) : replaceFrom pattern replacement 0 text = text := by
  induction text with
  | nil => rfl
  | cons c text ih =>
    obtain ⟨hfront, hrest⟩ := not_or.1 (mt List.infix_cons_iff.2 h)
    rw [replaceFrom, if_neg (by rwa [List.isPrefixOf_iff_prefix]), ih hrest]

/-- the first occurrence is replaced, and the search goes on behind it -/
theorem replaceFrom_leadsTo (hpattern : pattern ≠ []) (h : LeadsTo pattern piece) (rest : List Char) :
    replaceFrom pattern replacement 0 (piece ++ pattern ++ rest) =
      piece ++ replacement ++ replaceFrom pattern replacement 0 rest := by
  induction piece with
  | nil =>
    obtain ⟨c, covered, rfl⟩ := List.exists_cons_of_ne_nil hpattern
    have hfront : (c :: covered).isPrefixOf (c :: (covered ++ rest)) = true :=
      List.isPrefixOf_iff_prefix.2 (List.prefix_append (c :: covered) rest)
    rw [List.nil_append, List.nil_append, List.cons_append, replaceFrom, if_pos hfront]
    exact congrArg (replacement ++ ·) (replaceFrom_skip replacement covered rest)
  | cons c piece ih =>
    obtain ⟨hnot, h⟩ := leadsTo_cons_iff.1 h
    have hfront : ¬pattern <+: c :: (piece ++ pattern ++ rest) := by
      intro hmore
      apply hnot
      refine List.prefix_of_prefix_length_le hmore (List.prefix_append (c :: (piece ++ pattern)) rest) ?_
      simp only [List.length_cons, List.length_append]
      omega
    rw [List.cons_append, List.cons_append, replaceFrom, if_neg (by rwa [List.isPrefixOf_iff_prefix]), ih h]
    rfl

/-- **Replacing joins the pieces** -/
theorem replaceFrom_pieces (hpattern : pattern ≠ []) (h : Pieces pattern text pieces) :
    replaceFrom pattern replacement 0 text = replacement.intercalate pieces := by
  induction pieces generalizing text with
  | nil => exact absurd rfl h.ne_nil
  | cons piece pieces ih =>
    by_cases hempty : pieces = []
    · subst hempty
      obtain ⟨rfl, habsent⟩ := pieces_singleton_iff.1 h
      rw [replaceFrom_absent replacement habsent, List.intercalate_singleton]
    · obtain ⟨rest, rfl, hleads, hrest⟩ := (pieces_cons_iff hpattern hempty).1 h
      obtain ⟨next, pieces, rfl⟩ := List.exists_cons_of_ne_nil hempty
      rw [replaceFrom_leadsTo replacement hpattern hleads, ih hrest, List.intercalate_cons_cons, List.append_assoc]

end Text

/-! ## Parameters -/

namespace Variable

/-- the parameters replaced one after the other: each cuts the text that is left by those before it, and its value joins the
pieces -/
inductive Interpolates : List Variable → List Char → List Char → Prop where
  | done (text : List Char) : Interpolates [] text text
  | step {v : Variable} {vars : List Variable} {text result : List Char} {pieces : List (List Char)}
      (hpieces : Text.Pieces v.name.toList text pieces)
      (hrest : Interpolates vars (v.value.toList.intercalate pieces) result) : Interpolates (v :: vars) text result

theorem name_ne_nil {v : Variable} (h : v.isParam = true) : v.name.toList ≠ [] := by
  intro hempty
  simp [isParam, hempty] at h

theorem toList_replaceAll (text pattern replacement : String) :
    (Text.replaceAll text pattern replacement).toList =
      Text.replaceFrom pattern.toList replacement.toList 0 text.toList := by
  rw [Text.replaceAll, String.toList_ofList]

/-- **Folding the replacements is to interpolate step by step** -/
theorem interpolates_foldl {params : List Variable} (h : ∀ v ∈ params, v.isParam = true) (text : String) :
    Interpolates params text.toList (params.foldl (fun text v => Text.replaceAll text v.name v.value) text).toList := by
  induction params generalizing text with
  | nil => exact .done _
  | cons v params ih =>
    obtain ⟨hv, hparams⟩ := List.forall_mem_cons.1 h
    obtain ⟨pieces, hpieces⟩ := Text.exists_pieces (name_ne_nil hv) text.toList
    have hjoined := Text.replaceFrom_pieces v.value.toList (name_ne_nil hv) hpieces
    refine .step hpieces ?_
    rw [← hjoined, ← toList_replaceAll]
    exact ih hparams _

theorem Interpolates.unique {params : List Variable} (hparams : ∀ v ∈ params, v.isParam = true)
    {text result result' : List Char} (h : Interpolates params text result) (h' : Interpolates params text result') :
    result = result' := by
  induction h with
  | done text => cases h' with | done => rfl
  | step hpieces _ ih =>
    obtain ⟨hv, hparams⟩ := List.forall_mem_cons.1 hparams
    cases h' with
    | step hpieces' hrest' =>
      obtain rfl := hpieces.unique (name_ne_nil hv) hpieces'
      exact ih hparams hrest'

/-- names that do not occur leave the text as it is -/
theorem interpolates_absent {params : List Variable} {text : List Char}
    (h : ∀ v ∈ params, ¬v.name.toList <:+: text) : Interpolates params text text := by
  induction params with
  | nil => exact .done text
  | cons v params ih =>
    obtain ⟨hv, hparams⟩ := List.forall_mem_cons.1 h
    refine .step (Text.pieces_singleton_iff.2 ⟨rfl, hv⟩) ?_
    rw [List.intercalate_singleton]
    exact ih hparams

end Variable

/-- **Interpolation replaces the leftmost occurrences exactly.** With a single parameter, the text is cut at the occurrences
of its name in one and only one way, and the result is the same pieces joined by its value. With any number of parameters
the result is the one that is reached by replacing them so in the order of the list, so a text in which none of their names
occurs stays as it is. -/
theorem interpolate_pieces (vars : List Variable) (text : String) :
    (∀ v, vars.filter Variable.isParam = [v] → ∃ pieces, Text.Pieces v.name.toList text.toList pieces ∧
        (∀ others, Text.Pieces v.name.toList text.toList others → others = pieces) ∧
        (Variable.interpolate vars text).toList = v.value.toList.intercalate pieces) ∧
      (∀ result, Variable.Interpolates (vars.filter Variable.isParam) text.toList result ↔
        (Variable.interpolate vars text).toList = result) ∧
      ((∀ v ∈ vars, v.isParam = true → ¬v.name.toList <:+: text.toList) → Variable.interpolate vars text = text) := by
  have hparams : ∀ v ∈ vars.filter Variable.isParam, v.isParam = true := fun v hv => (List.mem_filter.1 hv).2
  have hsteps := Variable.interpolates_foldl hparams text
  refine ⟨?_, ?_, ?_⟩
  · intro v hv
    have hname := Variable.name_ne_nil (hparams v (by rw [hv]; exact List.mem_cons_self))
    obtain ⟨pieces, hpieces⟩ := Text.exists_pieces hname text.toList
    refine ⟨pieces, hpieces, fun others hothers => hothers.unique hname hpieces, ?_⟩
    rw [Variable.interpolate, hv, List.foldl_cons, List.foldl_nil, Variable.toList_replaceAll]
    exact Text.replaceFrom_pieces v.value.toList hname hpieces
  · refine fun result => ⟨hsteps.unique hparams, ?_⟩
    rintro rfl
    exact hsteps
  · intro habsent
    have hsame : Variable.Interpolates (vars.filter Variable.isParam) text.toList text.toList := by
      refine Variable.interpolates_absent fun v hv => ?_
      obtain ⟨hmem, hparam⟩ := List.mem_filter.1 hv
      exact habsent v hmem hparam
    exact String.toList_inj.1 (hsteps.unique hparams hsame)

/-- two variables, of which only the parameter counts; its name overlaps itself, and its value holds it -/
def overlappingVars : List Variable := [⟨"a", .string, "b"⟩, ⟨"$$", .string, "$$$"⟩]

/-- two parameters, the value of the first being the name of the second -/
def chainedVars : List Variable := [⟨"$p", .string, "$q"⟩, ⟨"$q", .string, "a"⟩]

/-- `$$$` is cut behind two marks, and the value put in is left alone; but the second parameter is found in the value of the
first one -/
theorem interpolate_pieces_overlapping :
    Variable.interpolate overlappingVars "a$$$b$$" = "a$$$$b$$$" ∧
      Variable.interpolate overlappingVars "$a $b" = "$a $b" ∧ Variable.interpolate chainedVars "$p$q" = "aa" := by
  obtain ⟨hsingle, -, -⟩ := interpolate_pieces overlappingVars "a$$$b$$"
  obtain ⟨pieces, -, hunique, hjoined⟩ := hsingle ⟨"$$", .string, "$$$"⟩ (by decide)
  have hpieces : Text.Pieces "$$".toList "a$$$b$$".toList ["a".toList, "$b".toList, []] :=
    ⟨by decide, by decide, by decide, by decide⟩
  obtain rfl := hunique _ hpieces
  obtain ⟨-, -, habsent⟩ := interpolate_pieces overlappingVars "$a $b"
  obtain ⟨-, hsteps, -⟩ := interpolate_pieces chainedVars "$p$q"
  have hfirst : Text.Pieces "$p".toList "$p$q".toList [[], "$q".toList] := ⟨by decide, by decide, by decide, by decide⟩
  have hsecond : Text.Pieces "$q".toList ("$q".toList.intercalate [[], "$q".toList]) [[], [], []] :=
    ⟨by decide, by decide, by decide, by decide⟩
  have hchained := (hsteps _).1 (.step hfirst (.step hsecond (.done _)))
  refine ⟨?_, habsent (by decide), ?_⟩
  · exact String.toList_inj.1 (hjoined.trans (by decide))
  · exact String.toList_inj.1 (hchained.trans (by decide))

end Formula
