import SchemaScaffold.Proofs.Schema.Layout

/-!
Removing a table from a schema that merges have written. Its block is taken out, then the
declarations of its enums one by one, since nothing else names them; the blank lines that meet are
squeezed. What is left is the schema without that entry.
-/

namespace SchemaScaffold

open Source Naming Text

namespace Source

/-- An enum that no line declares is no reason to change the text. -/
theorem removeEnum_skips {v source : List Char} (h : Skips (enumDeclaration? v) source) :
    removeEnum source v = .ok source := by
  have hnone := h.atLineStart? []
  rw [List.append_nil, atLineStart?, Option.map_none] at hnone
  simp only [removeEnum, declarationSpan, hnone]
  rfl

theorem foldlM_fixed {α ε β : Type} {f : β → α → Except ε β} {b : β} {as : List α}
    (h : ∀ a ∈ as, f b a = .ok b) : as.foldlM f b = .ok b := by
  induction as with
  | nil => rfl
  | cons a as ih =>
    rw [List.foldlM_cons, h a (by simp)]
    exact ih fun c hc => h c (List.mem_cons_of_mem _ hc)

end Source

namespace Definition

variable (d : Definition)

theorem enumDeclaration?_own {f : Field} (hf : f.Accepted) (rest : List Char) :
    enumDeclaration? (Mapping.enumVariable d.table.name f).toList
        (Mapping.enumDeclaration d.table.name f ++ rest) =
      some ('(' :: (Mapping.enumArguments d.table.name f ++ (");".toList ++ rest))) := by
  have hfunction : ∀ after, word? ("pgEnum".toList ++ '(' :: after) =
      some ("pgEnum".toList, '(' :: after) := fun _ => rfl
  have hopen : ∀ after, openCall? ('(' :: after) = some after := fun _ => rfl
  have hends : endsInEnum "pgEnum".toList = true := by decide
  simp only [enumDeclaration?, Option.bind_eq_bind, d.constant?_enumDeclaration hf, Option.bind_some,
    hfunction, hopen, hends, beq_self_eq_true, Bool.and_true, if_true]
  rfl

/-- The declaration of an enum is taken out if nothing else names its variable. -/
theorem removeEnum_own {f : Field} (hf : f.Accepted) {front rest : List Char}
    (hfront : Skips (enumDeclaration? (Mapping.enumVariable d.table.name f).toList) front)
    (hrest : Source.mentions (Mapping.enumVariable d.table.name f).toList (front ++ rest) = false) :
    removeEnum (front ++ (Mapping.enumDeclaration d.table.name f ++ '\n' :: rest))
      (Mapping.enumVariable d.table.name f).toList = .ok (front ++ rest) := by
  have hfound := hfront.atLineStart? (Mapping.enumDeclaration d.table.name f ++ '\n' :: rest)
  rw [atLineStart?_here (by simp) (d.enumDeclaration?_own hf _), Option.map_some] at hfound
  have hspan := declarationSpan_statement (Mapping.inline_enumArguments d.name_chars hf) front rest
    rfl rfl hfound rfl
  have hremaining := Span.remove_statement front (Mapping.enumDeclaration d.table.name f) rest
  unfold Mapping.enumDeclaration at hremaining hspan ⊢
  rw [removeEnum, hspan]
  dsimp only [bind, Except.bind]
  rw [hremaining, hrest]
  rfl

/-- The declarations of a table's enums are taken out one after the other. -/
theorem foldlM_removeEnum {front rest : List Char} {fields : List Field}
    (haccepted : ∀ f ∈ fields, f.Accepted)
    (hdistinct : (fields.map fun f => (Mapping.enumVariable d.table.name f).toList).Nodup)
    (hfront : ∀ f ∈ fields, Skips (enumDeclaration? (Mapping.enumVariable d.table.name f).toList) front)
    (hrest : ∀ f ∈ fields, ∀ others : List Field, (∀ g ∈ others, g ∈ fields ∧
        (Mapping.enumVariable d.table.name g).toList ≠ (Mapping.enumVariable d.table.name f).toList) →
      Source.mentions (Mapping.enumVariable d.table.name f).toList (front ++ (others.flatMap (fun g =>
        Mapping.enumDeclaration d.table.name g ++ ['\n']) ++ rest)) = false) :
    (fields.map fun f => (Mapping.enumVariable d.table.name f).toList).foldlM removeEnum
        (front ++ (fields.flatMap (fun f => Mapping.enumDeclaration d.table.name f ++ ['\n']) ++ rest)) =
      .ok (front ++ rest) := by
  induction fields with
  | nil => rfl
  | cons f fields ih =>
    obtain ⟨hf, hdistinct⟩ := List.nodup_cons.mp hdistinct
    have hothers : ∀ g ∈ fields, g ∈ f :: fields ∧
        (Mapping.enumVariable d.table.name g).toList ≠ (Mapping.enumVariable d.table.name f).toList :=
      fun g hg => ⟨List.mem_cons_of_mem _ hg, fun he => hf (List.mem_map.mpr ⟨g, hg, he⟩)⟩
    have hremove := d.removeEnum_own (haccepted f (by simp)) (hfront f (by simp))
      (hrest f (by simp) fields hothers)
    have hparts : front ++ ((f :: fields).flatMap (fun f =>
        Mapping.enumDeclaration d.table.name f ++ ['\n']) ++ rest) =
        front ++ (Mapping.enumDeclaration d.table.name f ++ '\n' :: (fields.flatMap (fun f =>
          Mapping.enumDeclaration d.table.name f ++ ['\n']) ++ rest)) := by
      simp
    rw [List.map_cons, List.foldlM_cons, hparts, hremove]
    refine ih (fun g hg => haccepted g (List.mem_cons_of_mem _ hg)) hdistinct
      (fun g hg => hfront g (List.mem_cons_of_mem _ hg)) fun g hg others hall => ?_
    exact hrest g (List.mem_cons_of_mem _ hg) others fun o ho =>
      ⟨List.mem_cons_of_mem _ (hall o ho).1, (hall o ho).2⟩

/-- However many blank lines stand before an entry, one is left. -/
theorem squeezeBreaks_entry (gap : Nat) (b : List Char) :
    squeezeBreaks 1 (List.replicate gap '\n' ++ (d.entry ++ b)) = d.entry ++ squeezeBreaks 1 b := by
  have hblock : Paragraph (d.table.renderBlock.toList ++ ['\n']) := d.paragraph_block
  have hgap : ∀ {p : List Char}, Paragraph p → ∀ more : List Char,
      squeezeBreaks 1 (List.replicate gap '\n' ++ ('\n' :: p ++ more)) =
        '\n' :: p ++ squeezeBreaks 1 more := by
    intro p hp more
    rw [← hp.squeezeBreaks_gap gap more, List.replicate_succ', List.append_assoc]
    rfl
  rw [d.entry_eq, d.preamble_eq]
  split
  · rw [List.nil_append]
    exact hgap hblock b
  · rename_i hsome
    have hlines : Paragraph ((Mapping.nativeEnums d.dialect d.fields).flatMap fun f =>
        Mapping.enumDeclaration d.table.name f ++ ['\n']) :=
      paragraph_flatMap hsome fun f hf =>
        paragraph_line (d.newline_not_mem_enumDeclaration (d.nativeEnum_accepted hf)) (by
          unfold Mapping.enumDeclaration statement
          simp)
    have hnext := hblock.squeezeBreaks_gap 0 b
    have hparts := hgap hlines ('\n' :: (d.table.renderBlock.toList ++ ['\n']) ++ b)
    rw [List.replicate_one] at hnext
    simp only [List.append_assoc, List.cons_append, List.nil_append] at hparts hnext ⊢
    rw [hparts, hnext]

end Definition

namespace Schema

theorem Harmonious.sublist {tables others : List Definition} (h : Harmonious tables)
    (hs : others.Sublist tables) : Harmonious others where
  admissible d hd := h.admissible d (hs.subset hd)
  names := h.names.sublist (hs.map _)
  distinct d hd := h.distinct d (hs.subset hd)
  apart d hd e he := h.apart d (hs.subset hd) e (hs.subset he)

namespace Layout

variable {L : Layout}

theorem squeezeBreaks_top (b : List Char) :
    squeezeBreaks 0 (L.top ++ b) = L.top ++ squeezeBreaks 1 b := by
  have himports : Paragraph (L.imports.flatMap Imports.line) :=
    paragraph_flatMap L.tidy.nonempty (L.tidy.forall_line fun _ _ h => h.paragraph_line)
  unfold top
  rw [List.append_assoc, himports.squeezeBreaks, List.append_assoc]
  rcases L.remarked with h | h <;> rw [h]
  · rfl
  · obtain ⟨line, hremark, hline⟩ := paragraph_remark
    have hgap := hline.squeezeBreaks_gap 0 b
    rw [List.replicate_one, List.singleton_append] at hgap
    rw [hremark, List.cons_append, hgap]

theorem squeezeBreaks_entries (tables : List Definition) (b : List Char) :
    squeezeBreaks 1 (tables.flatMap Definition.entry ++ b) =
      tables.flatMap Definition.entry ++ squeezeBreaks 1 b := by
  induction tables with
  | nil => rfl
  | cons d tables ih =>
    have hentry := d.squeezeBreaks_entry 0 (tables.flatMap Definition.entry ++ b)
    rw [List.replicate_zero, List.nil_append] at hentry
    rw [List.flatMap_cons, List.append_assoc, hentry, ih, List.append_assoc]

section Located

variable {before after : List Definition} {d : Definition} (h : L.tables = before ++ d :: after)

include h

theorem not_mem_enumVariables {e : Definition} (he : e ∈ before ∨ e ∈ after) :
    ∀ v ∈ d.enumVariables, v ∉ e.enumVariables :=
  L.harmonious.apart d (mem_tables h) e (mem_others h he) (name_ne h he)

/-- The other tables do not name its enums. -/
theorem passage_entries {v : List Char} (hv : v ∈ d.enumVariables) {tables : List Definition}
    (htables : ∀ e ∈ tables, e ∈ before ∨ e ∈ after) :
    Passage (·.1 == v) (tables.flatMap Definition.entry) [] := by
  have hname := (L.harmonious.admissible d (mem_tables h)).enumName hv
  have hall : Passage (·.1 == v) (tables.flatMap Definition.entry) (tables.flatMap fun _ => []) := by
    refine Passage.flatMap fun e he => ?_
    exact (L.harmonious.admissible e (mem_others h (htables e he))).passage_foreign hname
      (not_mem_enumVariables h (htables e he) v hv)
  rwa [List.flatMap_eq_nil_iff.mpr fun _ _ => rfl] at hall

/-- Around a table nothing names its enums. -/
theorem mentions_around {v : List Char} (hv : v ∈ d.enumVariables) {middle : List Char}
    (hmiddle : Passage (·.1 == v) middle []) :
    mentions v (L.top ++ (before.flatMap Definition.entry ++ (middle ++
      (after.flatMap Definition.entry ++ L.ending)))) = false := by
  have hname := (L.harmonious.admissible d (mem_tables h)).enumName hv
  rw [mentions_eq_false, L.uses_top hname.seeks
    fun dialect s hs => by simpa using hname.foreign dialect s hs]
  exact ((passage_entries h hv fun _ => .inl).append_nil (hmiddle.append_nil
    ((passage_entries h hv fun _ => .inr).append_nil (L.passage_ending hname.seeks.search)))).uses

/-- Where a table has no enum of a name, that enum is not declared. -/
theorem skips_entries {v : List Char} {tables : List Definition}
    (htables : ∀ e ∈ tables, e ∈ before ∨ e ∈ after) (hv : ∀ e ∈ tables, v ∉ e.enumVariables) :
    Skips (enumDeclaration? v) (tables.flatMap Definition.entry) :=
  Skips.flatMap fun e he => e.skips_enumDeclaration?
    (L.harmonious.admissible e (mem_others h (htables e he))).named (hv e he)

/-- Above a table no enum is declared that the tables there do not have. -/
theorem skips_above {v : List Char} (hv : ∀ e ∈ before, v ∉ e.enumVariables) :
    Skips (enumDeclaration? v) (L.top ++ (before.flatMap Definition.entry ++ ['\n'])) :=
  (Skips.of_silent (fun _ => enumDeclaration?_eq_none) L.silent_top).append
    ((skips_entries h (fun _ => .inl) hv).append (skips_break fun _ => rfl))

/-- What the block of a table without native enums calls, no other table declares. -/
theorem not_mem_of_called (hnone : Mapping.nativeEnums d.dialect d.fields = []) {v : List Char}
    (hv : v ∈ Source.enumVariables (d.table.renderBlock.toList ++ ['\n'])) {e : Definition}
    (he : e ∈ before ∨ e ∈ after) : v ∉ e.enumVariables := by
  intro hmem
  have hadmissible := L.harmonious.admissible d (mem_tables h)
  by_cases hdialect : d.dialect = .postgresql
  · have hown : d.enumVariables = [] := by rw [Definition.enumVariables, hnone, List.map_nil]
    rw [hadmissible.enumVariables_native (L.harmonious.distinct d (mem_tables h)) hdialect,
      hown] at hv
    cases hv
  · obtain ⟨s, hs, rfl⟩ := hadmissible.enumVariables_builders hdialect v hv
    exact ((L.harmonious.admissible e (mem_others h he)).enumName hmem).foreign _ s hs rfl

/-- A table without native enums has no declarations to take out. -/
theorem removeEnums_none (hnone : Mapping.nativeEnums d.dialect d.fields = []) :
    (Source.enumVariables (d.table.renderBlock.toList ++ ['\n'])).foldlM removeEnum
        (L.top ++ (before.flatMap Definition.entry ++ ['\n']) ++
          (after.flatMap Definition.entry ++ L.ending)) =
      .ok (L.top ++ (before.flatMap Definition.entry ++ ['\n']) ++
        (after.flatMap Definition.entry ++ L.ending)) := by
  refine foldlM_fixed fun v hv => removeEnum_skips ?_
  have hforeign : ∀ e, e ∈ before ∨ e ∈ after → v ∉ e.enumVariables := fun _ he =>
    not_mem_of_called h hnone hv he
  have hending : Skips (enumDeclaration? v) L.ending := by
    rcases L.ended with h | h <;> rw [h]
    · exact .nil
    · exact skips_break fun _ => rfl
  exact (skips_above h fun e he => hforeign e (.inl he)).append
    ((skips_entries h (fun _ => .inr) fun e he => hforeign e (.inr he)).append hending)

/-- The declarations of native enums are taken out, and the blank line behind them is left. -/
theorem removeEnums_native (hsome : Mapping.nativeEnums d.dialect d.fields ≠ []) :
    (Source.enumVariables (d.table.renderBlock.toList ++ ['\n'])).foldlM removeEnum
        (L.top ++ (before.flatMap Definition.entry ++ ['\n']) ++
          ((Mapping.nativeEnums d.dialect d.fields).flatMap (fun f =>
            Mapping.enumDeclaration d.table.name f ++ ['\n']) ++
              '\n' :: (after.flatMap Definition.entry ++ L.ending))) =
      .ok (L.top ++ (before.flatMap Definition.entry ++ ['\n']) ++
        '\n' :: (after.flatMap Definition.entry ++ L.ending)) := by
  have hadmissible := L.harmonious.admissible d (mem_tables h)
  have hdistinct := L.harmonious.distinct d (mem_tables h)
  obtain ⟨f, hf⟩ := List.exists_mem_of_ne_nil _ hsome
  have hdialect := ((Mapping.standardType_nativeEnum _ _).mp (List.mem_filter.mp hf).2).1
  rw [hadmissible.enumVariables_native hdistinct hdialect, Definition.enumVariables]
  refine d.foldlM_removeEnum (fun f hf => d.nativeEnum_accepted hf) hdistinct (fun f hf => ?_)
    fun f hf others hothers => ?_
  · exact skips_above h fun e he =>
      not_mem_enumVariables h (.inl he) _ (Definition.mem_enumVariables.mpr ⟨f, hf, rfl⟩)
  · have hv : (Mapping.enumVariable d.table.name f).toList ∈ d.enumVariables :=
      Definition.mem_enumVariables.mpr ⟨f, hf, rfl⟩
    have hname := hadmissible.enumName hv
    have hbreak : Passage (·.1 == (Mapping.enumVariable d.table.name f).toList) ['\n'] [] :=
      hname.seeks.search.passage (by decide)
    have haround := mentions_around h hv (hbreak.append_nil
      ((hadmissible.passage_others hname hothers).append_nil hbreak))
    simpa only [List.append_assoc, List.cons_append, List.nil_append] using haround

/-- The text without the block, and without the enums that it calls. -/
theorem removeEnums_text : ∃ gap,
    (Source.enumVariables (d.table.renderBlock.toList ++ ['\n'])).foldlM removeEnum
        (L.top ++ (before.flatMap Definition.entry ++ '\n' :: d.table.preamble) ++
          (after.flatMap Definition.entry ++ L.ending)) =
      .ok (L.top ++ (before.flatMap Definition.entry ++ (List.replicate (gap + 1) '\n' ++
        (after.flatMap Definition.entry ++ L.ending)))) := by
  rw [d.preamble_eq]
  by_cases hnone : Mapping.nativeEnums d.dialect d.fields = []
  · refine ⟨0, ?_⟩
    rw [if_pos hnone, removeEnums_none h hnone]
    simp only [List.append_assoc, List.replicate]
  · refine ⟨1, ?_⟩
    have hnative := removeEnums_native h hnone
    rw [if_neg hnone]
    simp only [List.append_assoc, List.cons_append, List.nil_append, List.replicate] at hnative ⊢
    exact hnative

/-- Removing a table leaves the layout without it. -/
theorem removeTable_text : ∃ M : Layout, removeTable L.text d.table.name.toList = .ok M.text ∧
    M.tables = before ++ after := by
  have hharmonious : Harmonious (before ++ after) := L.harmonious.sublist (by rw [h]; simp)
  obtain ⟨gap, hgap⟩ := removeEnums_text h
  have hremoved : removeTable L.text d.table.name.toList = .ok (squeezeBreaks 0 (L.top ++
      (before.flatMap Definition.entry ++ (List.replicate (gap + 1) '\n' ++
        (after.flatMap Definition.entry ++ L.ending))))) := by
    rw [removeTable, locateTable_text h]
    dsimp only [bind, Except.bind]
    rw [text_eq h, Span.cut_statement, Span.remove_statement, hgap]
    rfl
  rw [hremoved, squeezeBreaks_top, squeezeBreaks_entries]
  cases after with
  | nil =>
    refine ⟨{ L with
      tables := before ++ [], ending := ['\n'], harmonious := hharmonious, ended := .inr rfl }, ?_,
      rfl⟩
    have hend : squeezeBreaks 1 (List.replicate (gap + 1) '\n' ++ L.ending) = ['\n'] := by
      rcases L.ended with h | h <;> rw [h]
      · rw [List.append_nil]
        exact squeezeBreaks_end gap
      · rw [← List.replicate_one, List.replicate_append_replicate]
        exact squeezeBreaks_end (gap + 1)
    rw [List.flatMap_nil, List.nil_append, hend]
    simp only [text, top, List.append_nil]
  | cons e after =>
    refine ⟨{ L with tables := before ++ e :: after, harmonious := hharmonious }, ?_, rfl⟩
    have hend : squeezeBreaks 1 L.ending = L.ending := by
      rcases L.ended with h | h <;> rw [h] <;> rfl
    rw [List.flatMap_cons, List.append_assoc, e.squeezeBreaks_entry, squeezeBreaks_entries, hend]
    simp only [text, top, List.flatMap_append, List.flatMap_cons, List.append_assoc]

end Located

/-- Removing a table that is not there changes nothing. -/
theorem removeTable_absent {name : List Char} (hname : ∀ c ∈ name, isQuote c = false)
    (h : ∀ d ∈ L.tables, d.table.name.toList ≠ name) : removeTable L.text name = .ok L.text := by
  have hexists : tableExists L.text name = false := by
    rw [← Bool.not_eq_true, L.tableExists_text hname]
    rintro ⟨d, hd, he⟩
    exact h d hd he
  rw [removeTable, locateTable, hexists]
  rfl

end Layout
end Schema
end SchemaScaffold
