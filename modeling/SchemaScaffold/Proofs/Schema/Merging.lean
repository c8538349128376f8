import SchemaScaffold.Proofs.Schema.Erasure
import SchemaScaffold.Setup.Content

/-!
Merging a table into a schema that merges have written. Its imports are read and written again with
what the table needs, the text below them is kept, and the table goes to the end; so what comes out
is again such a schema.
-/

namespace SchemaScaffold

open Source Naming Text

namespace Text

/-- A text between two line breaks that starts and ends with something to see. -/
structure Framed (s core : List Char) : Prop where
  eq : s = '\n' :: (core ++ ['\n'])
  first : ∃ c rest, core = c :: rest ∧ isBlank c = false
  last : ∃ rest c, core = rest ++ [c] ∧ isBlank c = false

theorem Framed.append {s t core core' : List Char} (hs : Framed s core) (ht : Framed t core') :
    Framed (s ++ t) (core ++ ('\n' :: '\n' :: core')) where
  eq := by
    rw [hs.eq, ht.eq]
    simp
  first := by
    obtain ⟨c, rest, rfl, hc⟩ := hs.first
    exact ⟨c, _, rfl, hc⟩
  last := by
    obtain ⟨rest, c, rfl, hc⟩ := ht.last
    exact ⟨core ++ ('\n' :: '\n' :: rest), c, by simp, hc⟩

theorem framed_flatMap {α : Type} {f : α → List Char} {as : List α} (hne : as ≠ [])
    (h : ∀ a ∈ as, ∃ core, Framed (f a) core) : ∃ core, Framed (as.flatMap f) core := by
  induction as with
  | nil => exact absurd rfl hne
  | cons a as ih =>
    obtain ⟨core, hcore⟩ := h a (by simp)
    rw [List.flatMap_cons]
    by_cases hnil : as = []
    · exact ⟨core, by simpa [hnil] using hcore⟩
    · obtain ⟨core', hcore'⟩ := ih hnil fun b hb => h b (List.mem_cons_of_mem _ hb)
      exact ⟨_, hcore.append hcore'⟩

/-- Trimming takes the line breaks off. -/
theorem Framed.trim {s core : List Char} (h : Framed s core) {ending : List Char}
    (hending : ∀ c ∈ ending, isBlank c = true) : Text.trim (s ++ ending) = core := by
  obtain ⟨c, rest, hfirst, hc⟩ := h.first
  obtain ⟨rest', c', hlast, hc'⟩ := h.last
  have hstart : trimStart (s ++ ending) = core ++ ('\n' :: ending) := by
    have hbreak : isBlank '\n' = true := by decide
    rw [h.eq, trimStart, List.cons_append, List.dropWhile_cons_of_pos hbreak, hfirst]
    simp [hc]
  have hblank : ∀ x ∈ ('\n' :: ending).reverse, isBlank x = true := by
    simp only [List.mem_reverse, List.forall_mem_cons]
    exact ⟨by decide, hending⟩
  rw [Text.trim, hstart, trimEnd, List.reverse_append, List.dropWhile_append_of_pos hblank, hlast]
  simp [hc']

end Text

namespace Definition

variable (d : Definition)

/-- A schema with one table is the line of its imports and its entry. -/
theorem fresh_entry : ∃ entry, Imports.Provided d.dialect entry ∧
    (Schema.fresh d.table).toList = Imports.line entry ++ d.entry := by
  obtain ⟨entry, hentry, hprovided⟩ := d.requiredImports_eq
  refine ⟨entry, hprovided, ?_⟩
  have hline := hprovided.tidy.render_toList
  rw [List.flatMap_singleton] at hline
  rw [Schema.fresh_toList, hentry, ← hline, Definition.entry]
  simp

theorem framed_entry : Framed d.entry d.table.render.toList where
  eq := rfl
  first := by
    obtain ⟨rest, hrest⟩ := d.exports_render.cons
    cases hrender : d.table.render.toList with
    | nil =>
      rw [hrender] at hrest
      cases hrest
    | cons c cs =>
      rw [hrender] at hrest
      exact ⟨c, cs, rfl, by rw [(List.cons.inj hrest).1]; decide⟩
  last := by
    have hstatement : ∀ name function arguments : List Char,
        ");".toList <:+ statement name function arguments := fun name function arguments =>
      ((List.suffix_append arguments _).trans (List.suffix_cons '(' _)).trans
        ((List.suffix_append function _).trans ((List.suffix_append _ _).trans
          ((List.suffix_append name _).trans (List.suffix_append _ _))))
    have hlast : [';'] <:+ d.table.render.toList := by
      rw [d.table.render_toList, d.renderBlock_eq]
      exact (List.IsSuffix.trans (by decide) (hstatement _ _ _)).trans (List.suffix_append _ _)
    obtain ⟨rest, hrest⟩ := hlast
    exact ⟨rest, ';', hrest.symm, by decide⟩

end Definition

namespace Schema

theorem framed_remark : ∃ core, Framed remark core :=
  ⟨remark.tail.dropLast, by decide, ⟨'/', _, rfl, by decide⟩,
    remark.tail.dropLast.dropLast, 't', by decide, by decide⟩

namespace Layout

variable (L : Layout)

theorem skips_importAt?_body :
    Skips importAt? (L.remark ++ (L.tables.flatMap Definition.entry ++ L.ending)) := by
  have hremark : Skips importAt? L.remark := by
    rcases L.remarked with h | h <;> rw [h]
    · exact .nil
    · exact skips_remark
  have hending : Skips importAt? L.ending := by
    rcases L.ended with h | h <;> rw [h]
    · exact .nil
    · exact skips_break fun _ => rfl
  exact hremark.append ((Skips.flatMap fun d _ => d.skips_importAt?).append hending)

theorem extractImports_text : extractImports L.text = L.imports := by
  rw [text, top, List.append_assoc]
  exact L.tidy.extractImports L.skips_importAt?_body

theorem stripImports_text :
    stripImports L.text = L.remark ++ (L.tables.flatMap Definition.entry ++ L.ending) := by
  rw [text, top, List.append_assoc]
  exact L.tidy.stripImports L.skips_importAt?_body

/-- What a merge keeps between the imports and the table. -/
theorem part_body : (part (trim (stripImports L.text))).flatMap (fun core => '\n' :: (core ++ ['\n'])) =
    L.remark ++ L.tables.flatMap Definition.entry := by
  have hblank : ∀ c ∈ L.ending, isBlank c = true := by
    rcases L.ended with h | h <;> rw [h] <;> exact List.all_eq_true.mp (by decide)
  have hbody : L.remark ++ L.tables.flatMap Definition.entry = [] ∨
      ∃ core, Framed (L.remark ++ L.tables.flatMap Definition.entry) core := by
    by_cases htables : L.tables = []
    · rw [htables, List.flatMap_nil, List.append_nil]
      rcases L.remarked with h | h <;> rw [h]
      · exact .inl rfl
      · exact .inr framed_remark
    · obtain ⟨core, hcore⟩ := framed_flatMap htables fun d _ => ⟨_, d.framed_entry⟩
      rcases L.remarked with h | h <;> rw [h]
      · exact .inr ⟨core, hcore⟩
      · obtain ⟨core', hcore'⟩ := framed_remark
        exact .inr ⟨_, hcore'.append hcore⟩
  rw [L.stripImports_text, ← List.append_assoc]
  rcases hbody with hbody | ⟨core, hcore⟩
  · have htrim : trim L.ending = [] := by
      rcases L.ended with h | h <;> rw [h] <;> decide
    rw [hbody, List.nil_append, htrim]
    rfl
  · obtain ⟨c, rest, hcons, -⟩ := hcore.first
    have hpart : part core = [core] := by
      rw [hcons]
      rfl
    rw [hcore.trim hblank, hpart, hcore.eq]
    simp

/-- A table put behind a layout. -/
theorem assemble_text (d : Definition) (h : Harmonious (L.tables ++ [d])) :
    ∃ M : Layout, (assemble [] L.text d.table).toList = M.text ∧ M.tables = L.tables ++ [d] := by
  obtain ⟨entry, hentry, hprovided⟩ := d.requiredImports_eq
  have himports : L.imports.merge d.table.requiredImports = L.imports.add entry.1 entry.2 := by
    rw [hentry]
    rfl
  have htidy := L.tidy.add_entry hprovided
  refine ⟨{ L with
    imports := L.imports.add entry.1 entry.2, tables := L.tables ++ [d], ending := [], tidy := htidy
    harmonious := h, ended := .inl rfl }, ?_, rfl⟩
  -- the break that ends the imports and the one before the table frame what is kept
  have hshift : ∀ parts : List (List Char), '\n' :: parts.flatMap (· ++ ['\n', '\n']) =
      parts.flatMap (fun core => '\n' :: (core ++ ['\n'])) ++ ['\n'] := by
    intro parts
    induction parts with
    | nil => rfl
    | cons core parts ih =>
      rw [List.flatMap_cons, List.flatMap_cons, List.append_assoc _ _ ['\n'], ← ih]
      simp
  have hheader : part (trim []) = [] := rfl
  have htext : (assemble [] L.text d.table).toList = (L.imports.add entry.1 entry.2).render.toList ++
      ('\n' :: ('\n' :: (part (trim (stripImports L.text))).flatMap (· ++ ['\n', '\n']) ++
        (d.table.render.toList ++ ['\n']))) := by
    rw [assemble_toList, front, hheader, List.nil_append, L.extractImports_text, himports]
    simp
  rw [htext, hshift, L.part_body]
  simp only [text, top]
  rw [← htidy.render_toList, List.flatMap_append, List.flatMap_singleton, Definition.entry]
  simp

theorem filter_others {L : Layout} {before after : List Definition} {d : Definition}
    (h : L.tables = before ++ d :: after) :
    L.tables.filter (·.table.name != d.table.name) = before ++ after := by
  have hothers : (before ++ after).filter (·.table.name != d.table.name) = before ++ after :=
    List.filter_eq_self.mpr fun e he => by
      simpa using name_ne h (List.mem_append.mp he)
  rw [List.filter_append] at hothers
  rw [h, List.filter_append, List.filter_cons_of_neg (by simp), hothers]

theorem tableExists_name {d : Definition} : tableExists L.text d.table.name.toList = true ↔
    d.table.name ∈ L.tables.map (·.table.name) := by
  rw [L.tableExists_text d.name_quotes, List.mem_map]
  exact exists_congr fun e => and_congr_right fun _ => String.toList_inj

/-- A merge that is not forced leaves a schema with the table as it is. -/
theorem merge_skips {d : Definition} (hd : d.table.name ∈ L.tables.map (·.table.name)) :
    merge (some (String.ofList L.text)) d.table false =
      .ok { content := String.ofList L.text, action := .skipped } := by
  have hexists := L.tableExists_name.mpr hd
  simp only [merge, Option.getD_some, String.toList_ofList, L.not_allBlank_text, hexists]
  rfl

/-- Any other merge puts the table behind the others. -/
theorem merge_writes {d : Definition} {force : Bool}
    (hforce : d.table.name ∈ L.tables.map (·.table.name) → force = true)
    (h : Harmonious (L.tables.filter (·.table.name != d.table.name) ++ [d])) :
    ∃ (M : Layout) (action : MergeAction), merge (some (String.ofList L.text)) d.table force =
      .ok { content := String.ofList M.text, action } ∧ action ≠ .skipped ∧
        M.tables = L.tables.filter (·.table.name != d.table.name) ++ [d] := by
  by_cases hthere : d.table.name ∈ L.tables.map (·.table.name)
  · obtain ⟨e, he, hname⟩ := List.mem_map.mp hthere
    obtain ⟨before, after, hL⟩ := List.append_of_mem he
    obtain ⟨M, hM, hothers⟩ := removeTable_text hL
    rw [← hname, filter_others hL, ← hothers] at h ⊢
    obtain ⟨N, hN, htables⟩ := M.assemble_text d h
    refine ⟨N, .replaced, ?_, by simp, htables⟩
    have hexists := L.tableExists_name.mpr hthere
    rw [hname] at hM
    simp only [merge, Option.getD_some, String.toList_ofList, L.not_allBlank_text, hexists,
      hforce hthere, L.afterHeader_text, L.header_text, hM, ← hN, String.ofList_toList]
    rfl
  · have hall : L.tables.filter (·.table.name != d.table.name) = L.tables :=
      List.filter_eq_self.mpr fun e he => by
        simpa using fun hname : e.table.name = d.table.name => hthere (List.mem_map.mpr ⟨e, he, hname⟩)
    rw [hall] at h ⊢
    obtain ⟨N, hN, htables⟩ := L.assemble_text d h
    refine ⟨N, .appended, ?_, by simp, htables⟩
    have hexists : tableExists L.text d.table.name.toList = false :=
      Bool.eq_false_iff.mpr fun hexists => hthere (L.tableExists_name.mp hexists)
    simp only [merge, Option.getD_some, String.toList_ofList, L.not_allBlank_text, hexists,
      L.afterHeader_text, L.header_text, ← hN, String.ofList_toList]
    rfl

/-- A schema with one table. -/
theorem exists_fresh {d : Definition} (h : Harmonious [d]) :
    ∃ M : Layout, (fresh d.table).toList = M.text ∧ M.tables = [d] := by
  obtain ⟨entry, hprovided, hfresh⟩ := d.fresh_entry
  refine ⟨{
    imports := [entry], remark := [], tables := [d], ending := [], tidy := hprovided.tidy
    remarked := .inl rfl, harmonious := h, ended := .inl rfl }, ?_, rfl⟩
  simp only [text, top]
  rw [hfresh]
  simp

/-- A schema that a setup has written. -/
theorem exists_emptySchema (dialect : Dialect) :
    ∃ M : Layout, (Setup.emptySchema dialect).toList = M.text ∧ M.tables = [] := by
  have hprovided : Imports.Provided dialect
      (Mapping.standardModule dialect, [Mapping.standardTableFunction dialect]) :=
    ⟨rfl, by simp, by simp, by simp [Mapping.moduleSymbols]⟩
  have hharmonious : Harmonious [] := ⟨by simp, by simp, by simp, by simp⟩
  refine ⟨{
    imports := [(Mapping.standardModule dialect, [Mapping.standardTableFunction dialect])]
    remark := Schema.remark, tables := [], ending := [], tidy := hprovided.tidy
    remarked := .inr rfl, harmonious := hharmonious, ended := .inl rfl }, ?_, rfl⟩
  simp only [text, top]
  cases dialect <;> decide +kernel

end Layout
end Schema
end SchemaScaffold
