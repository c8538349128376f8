import SchemaScaffold.Proofs.Schema.Assembly
import SchemaScaffold.Proofs.Table.ImportLines

/-!
What appending a table does to the imports. Wherever the import statements of a text stand, the new
text starts with one for each module, and reading it gives every module the symbols that it had, then
those that the table needs. The rest of the text may look like further imports: they go to the end.
-/

namespace SchemaScaffold

open Source Naming Text

/-! ## The header and what follows it -/

namespace Source

theorem lineEnd?_suffix {cs rest : List Char} (h : lineEnd? cs = some rest) : rest <:+ cs := by
  have hskip : skipInlineBlanks cs <:+ cs := List.dropWhile_suffix _
  unfold lineEnd? at h
  split at h
  · rw [← Option.some.inj h]
    exact List.nil_suffix
  · rename_i c cs' hcs
    rw [hcs] at hskip
    split at h
    · rw [← Option.some.inj h]
      exact (List.suffix_cons c cs').trans hskip
    · cases h

theorem commentLineEnd?_suffix {cs rest : List Char} (h : commentLineEnd? cs = some rest) :
    rest <:+ cs := by
  induction cs with
  | nil => cases h
  | cons c cs ih =>
    rw [commentLineEnd?] at h
    split at h
    · rename_i found hfound
      cases h
      split at hfound
      · obtain ⟨closed, hclosed, hline⟩ := Option.bind_eq_some_iff.mp hfound
        exact (lineEnd?_suffix hline).trans
          ((dropText?_suffix hclosed).trans (List.suffix_cons c cs))
      · cases hfound
    · exact (ih h).trans (List.suffix_cons c cs)

theorem headerLine?_suffix {cs rest : List Char} (h : headerLine? cs = some rest) : rest <:+ cs := by
  have hskip : skipInlineBlanks cs <:+ cs := List.dropWhile_suffix _
  unfold headerLine? at h
  split at h
  · rename_i body hcs
    rw [hcs] at hskip
    have hbody : body.dropWhile (· != '\n') <:+ '/' :: '/' :: body :=
      (List.dropWhile_suffix _).trans ⟨['/', '/'], rfl⟩
    exact (lineEnd?_suffix h).trans (hbody.trans hskip)
  · rename_i body hcs
    rw [hcs] at hskip
    exact (commentLineEnd?_suffix h).trans ((List.IsSuffix.trans ⟨['/', '*'], rfl⟩ hskip))
  · exact (lineEnd?_suffix h).trans hskip

theorem afterHeader_suffix (cs : List Char) : afterHeader cs <:+ cs := by
  have hall : ∀ (lines : Nat) (cs : List Char), afterHeaderLines lines cs <:+ cs := by
    intro lines
    induction lines with
    | zero => exact List.suffix_refl
    | succ lines ih =>
      intro cs
      rw [afterHeaderLines]
      split
      · exact List.suffix_refl cs
      · split
        · rename_i rest hline
          exact (ih rest).trans (headerLine?_suffix hline)
        · exact List.suffix_refl cs
  exact hall _ cs

theorem header_append (cs : List Char) : header cs ++ afterHeader cs = cs := by
  obtain ⟨front, hfront⟩ := afterHeader_suffix cs
  have hlength : cs.length - (afterHeader cs).length = front.length := by
    rw [← congrArg List.length hfront, List.length_append]
    omega
  have htake : header cs = front := by
    rw [header, hlength, ← hfront, List.take_left' rfl]
  rw [htake, hfront]

end Source

namespace Schema

open Imports

/-- A table that was built needs a symbol of one module. -/
theorem requiredImports_of_built {names : ModelNames} {fields : List Field} {dialect : Dialect}
    {options : TableOptions} {table : Table}
    (hbuilt : Mapping.standard.table names fields dialect options = .ok table) :
    ∃ entry, table.requiredImports = [entry] ∧ Provided dialect entry := by
  rw [Mapping.standardTable_of_built hbuilt]
  exact Mapping.standardTable_requiredImports

/-- Without a header the lines of the imports come first. -/
theorem assemble_lines {source : List Char} {table : Table}
    (h : ((extractImports source).merge table.requiredImports).shown ≠ []) :
    ∃ rest, (assemble [] source table).toList =
      ((extractImports source).merge table.requiredImports).shown.flatMap line ++ '\n' :: rest := by
  refine ⟨(part (Text.trim (stripImports source))).flatMap (· ++ ['\n', '\n']) ++
    (table.render.toList ++ ['\n']), ?_⟩
  have hheader : part (Text.trim []) = [] := rfl
  have hbreaks : ∀ cs : List Char, cs ++ ['\n', '\n'] = (cs ++ ['\n']) ++ ['\n'] := by simp
  rw [assemble_toList, front, hheader, List.nil_append, List.flatMap_append, List.flatMap_singleton,
    hbreaks, render_toList h]
  simp only [List.append_assoc, List.cons_append, List.nil_append]

/-- A text that starts with the lines of legible imports starts with their statements, and has
their symbols before any others. -/
theorem reads_lines {imports : Imports} (h : Legible imports) (hne : imports.shown ≠ [])
    {content : String} {rest : List Char}
    (hcontent : content.toList = imports.shown.flatMap line ++ '\n' :: rest) :
    (∀ module, ∃ more, (extractImports content.toList).symbols module =
        imports.symbols module ++ more ∧ (imports.symbols module ++ more).Nodup) ∧
      content = imports.render ++ "\n\n" ++ String.ofList rest := by
  refine ⟨fun module => ?_, String.toList_inj.mp ?_⟩
  · obtain ⟨more, hmore⟩ := gather_symbols (statements ('\n' :: rest)) imports.shown module
    have hlegible := legible_extractImports content.toList
    have hread : (extractImports content.toList).symbols module = imports.symbols module ++ more := by
      rw [hcontent, h.shown.extractImports_lines, ← hmore, symbols_shown h.modules]
    exact ⟨more, hread, hread ▸ nodup_symbols hlegible.modules hlegible.nodup module⟩
  · have hbreaks : "\n\n".toList = ['\n', '\n'] := by decide
    rw [hcontent, ← render_toList hne]
    simp only [String.toList_append, String.toList_ofList, hbreaks, List.append_assoc,
      List.cons_append, List.nil_append]

/-- Appending a table loses no import. Every module keeps its symbols in their order, the new ones
follow, and whatever else is read comes after these; the new text starts with a statement for each
module that has a symbol, in the order in which they were first seen. -/
theorem merge_appends_imports {names : ModelNames} {fields : List Field} {dialect : Dialect}
    {options : TableOptions} {table : Table}
    (hbuilt : Mapping.standard.table names fields dialect options = .ok table) {existing : String}
    (hblank : Text.allBlank existing.toList = false) (hheader : header existing.toList = [])
    (habsent : tableExists existing.toList table.name.toList = false) (force : Bool) :
    let old := extractImports existing.toList
    let new := table.requiredImports
    ∃ content, merge (some existing) table force = .ok { content, action := .appended } ∧
      (∀ module, ∃ more,
        (extractImports content.toList).symbols module = union old new module ++ more ∧
          (union old new module ++ more).Nodup) ∧
      (firstSeen old new).Nodup ∧
      ∃ rest, content = "\n".intercalate
        (((firstSeen old new).filter fun module => !(union old new module).isEmpty).map fun module =>
          renderStatement module (union old new module)) ++ "\n\n" ++ rest := by
  intro old new
  have hold : Legible old := legible_extractImports existing.toList
  obtain ⟨entry, hentry, hprovided⟩ := requiredImports_of_built hbuilt
  have hnew : Legible new := by
    have hone : new = [entry] := hentry
    rw [hone]
    exact hprovided.tidy.legible
  have hmerged : Legible (old.merge new) := hold.merge hnew.entries
  have hunion : ∀ module, (old.merge new).symbols module = union old new module := fun module => by
    rw [symbols_merge hnew.modules,
      addSymbols_eq (nodup_symbols hnew.modules hnew.nodup module), union]
  -- the module that the table needs has a symbol
  have hne : (old.merge new).shown ≠ [] := by
    intro hnil
    obtain ⟨s, hs⟩ := List.exists_mem_of_ne_nil _ hprovided.nonempty
    have hmem : entry ∈ new := by simp [new, hentry]
    have hs' : s ∈ (old.merge new).symbols entry.1 := by
      rw [hunion]
      exact mem_union.mpr (.inr (by rwa [symbols_of_mem hnew.modules hmem]))
    rw [← symbols_shown hmerged.modules, hnil] at hs'
    cases hs'
  have hrender : (old.merge new).render = "\n".intercalate
      (((firstSeen old new).filter fun module => !(union old new module).isEmpty).map fun module =>
        renderStatement module (union old new module)) := by
    rw [render, merge_eq hold.modules hnew.modules hnew.nodup, List.filter_map, List.map_map]
    rfl
  have hmerge : merge (some existing) table force =
      .ok { content := assemble [] existing.toList table, action := .appended } := by
    have hbody : afterHeader existing.toList = existing.toList := by
      simpa [hheader] using header_append existing.toList
    unfold merge
    simp only [Option.getD_some, hblank, habsent, hheader, hbody, Bool.false_eq_true, if_false]
  obtain ⟨rest, hcontent⟩ := assemble_lines hne
  obtain ⟨hread, htext⟩ := reads_lines hmerged hne hcontent
  refine ⟨_, hmerge, fun module => ?_, nodup_firstSeen hold.modules hnew.modules,
    String.ofList rest, hrender ▸ htext⟩
  rw [← hunion]
  exact hread module

/-- Two statements on one line: only the first is read, and cut out. The other one is read in the new
text, and its symbol goes to the end. -/
theorem merge_appends_imports_one_line :
    let existing := "import \x7b b \x7d from \"m\";import \x7b a \x7d from \"m\";\nexport const x = 1;\n"
    let table := Mapping.standardTable (ModelNames.of "Tag") [] .sqlite { timestamps := false }
    let old := extractImports existing.toList
    let new := table.requiredImports
    Mapping.standard.table (ModelNames.of "Tag") [] .sqlite { timestamps := false } = .ok table ∧
      Text.allBlank existing.toList = false ∧ header existing.toList = [] ∧
      tableExists existing.toList table.name.toList = false ∧
      ∃ content, merge (some existing) table false = .ok { content, action := .appended } ∧
        (∀ module, ∃ more,
          (extractImports content.toList).symbols module = union old new module ++ more ∧
            (union old new module ++ more).Nodup) ∧
        (firstSeen old new).Nodup ∧
        ∃ rest, content = "\n".intercalate
          (((firstSeen old new).filter fun module => !(union old new module).isEmpty).map fun module =>
            renderStatement module (union old new module)) ++ "\n\n" ++ rest := by
  intro existing table old new
  have hbuilt : Mapping.standard.table (ModelNames.of "Tag") [] .sqlite { timestamps := false } =
      .ok table := by
    rw [Mapping.standard_table]
    rfl
  have hblank : Text.allBlank existing.toList = false := by decide +kernel
  have hheader : header existing.toList = [] := by decide +kernel
  have habsent : tableExists existing.toList table.name.toList = false := by decide +kernel
  exact ⟨hbuilt, hblank, hheader, habsent, merge_appends_imports hbuilt hblank hheader habsent false⟩

end Schema
end SchemaScaffold
