import SchemaScaffold.Proofs.Table.Definition

/-!
What tables import. Every column of a table comes from the module of its dialect, so a table needs
one import entry. Adding it to a table of imports keeps one entry for each module, and in it symbols
that the module has, each once.
-/

namespace SchemaScaffold

open Naming

/-! ## Symbols of an entry -/

theorem mem_addSymbols {old new : List String} {s : String} :
    s ∈ addSymbols old new ↔ s ∈ old ∨ s ∈ new := by
  unfold addSymbols
  induction new generalizing old with
  | nil => simp
  | cons t new ih =>
    rw [List.foldl_cons, ih, List.mem_cons]
    split
    · rename_i ht
      have ht : t ∈ old := by simpa using ht
      grind
    · rw [List.mem_append, List.mem_singleton, or_assoc]

theorem nodup_addSymbols {old new : List String} (h : old.Nodup) : (addSymbols old new).Nodup := by
  unfold addSymbols
  induction new generalizing old with
  | nil => exact h
  | cons t new ih =>
    rw [List.foldl_cons]
    split
    · exact ih h
    · rename_i ht
      refine ih (List.nodup_append.mpr ⟨h, by simp, ?_⟩)
      rintro a ha b hb rfl
      rw [List.mem_singleton.mp hb] at ha
      simp [ha] at ht

/-- Symbols that are new, and different from each other, go to the end. -/
theorem addSymbols_of_nodup {old new : List String} (h : (old ++ new).Nodup) :
    addSymbols old new = old ++ new := by
  unfold addSymbols
  induction new generalizing old with
  | nil => simp
  | cons t new ih =>
    have ht : t ∉ old := fun hmem => (List.nodup_append.mp h).2.2 t hmem t (by simp) rfl
    rw [List.foldl_cons, if_neg (by simpa using ht), ih (by simpa using h)]
    simp

namespace Mapping

/-- What tables and columns use of the module of a dialect. -/
def moduleSymbols (dialect : Dialect) : List String :=
  standardTableFunction dialect :: [false, true].map (fun uuid => (standardId dialect uuid).1) ++
    FieldType.all.map (fun type => (standardType dialect type).builder) ++
      [(standardTimestamp dialect).builder, dialect.anyColumnType]

theorem standardModule_injective {a b : Dialect} (h : standardModule a = standardModule b) :
    a = b := by
  revert h
  cases a <;> cases b <;> decide

end Mapping

namespace Imports

/-- An entry that imports, each once, symbols of the module of a dialect. -/
structure Provided (dialect : Dialect) (entry : String × List String) : Prop where
  module : entry.1 = Mapping.standardModule dialect
  nonempty : entry.2 ≠ []
  nodup : entry.2.Nodup
  symbols : ∀ s ∈ entry.2, s ∈ Mapping.moduleSymbols dialect

/-- Imports as merges leave them: one entry for each module. -/
structure Tidy (imports : Imports) : Prop where
  nonempty : imports ≠ []
  modules : (imports.map (·.1)).Nodup
  entries : ∀ entry ∈ imports, ∃ dialect, Provided dialect entry

theorem mem_add {module : String} {symbols : List String} {imports : Imports}
    {entry : String × List String} (h : entry ∈ add module symbols imports) :
    entry ∈ imports ∨ entry = (module, addSymbols [] symbols) ∨
      ∃ old, (module, old) ∈ imports ∧ entry = (module, addSymbols old symbols) := by
  induction imports with
  | nil => exact .inr (.inl (by simpa [add] using h))
  | cons first imports ih =>
    obtain ⟨name, old⟩ := first
    rw [add] at h
    split at h
    · rename_i hname
      obtain rfl : name = module := by simpa using hname
      rcases List.mem_cons.mp h with rfl | h
      · exact .inr (.inr ⟨old, by simp, rfl⟩)
      · exact .inl (List.mem_cons_of_mem _ h)
    · rcases List.mem_cons.mp h with rfl | h
      · exact .inl (by simp)
      · rcases ih h with h | h | ⟨old', hmem, h⟩
        · exact .inl (List.mem_cons_of_mem _ h)
        · exact .inr (.inl h)
        · exact .inr (.inr ⟨old', List.mem_cons_of_mem _ hmem, h⟩)

theorem add_modules (module : String) (symbols : List String) (imports : Imports) :
    (add module symbols imports).map (·.1) =
      if module ∈ imports.map (·.1) then imports.map (·.1) else imports.map (·.1) ++ [module] := by
  induction imports with
  | nil => rfl
  | cons first imports ih =>
    obtain ⟨name, old⟩ := first
    rw [add]
    by_cases hname : name = module
    · simp [hname]
    · rw [if_neg (by simpa using hname), List.map_cons, ih, List.map_cons]
      have hiff : module ∈ name :: imports.map (·.1) ↔ module ∈ imports.map (·.1) := by
        rw [List.mem_cons, or_iff_right (Ne.symm hname)]
      by_cases hmem : module ∈ imports.map (·.1)
      · rw [if_pos hmem, if_pos (hiff.mpr hmem)]
      · rw [if_neg hmem, if_neg fun h => hmem (hiff.mp h)]
        rfl

theorem nodup_add_modules {imports : Imports} (h : (imports.map (·.1)).Nodup) (module : String)
    (symbols : List String) : ((add module symbols imports).map (·.1)).Nodup := by
  rw [add_modules]
  split
  · exact h
  · rename_i hnew
    refine List.nodup_append.mpr ⟨h, by simp, ?_⟩
    rintro a ha b hb rfl
    exact hnew (List.mem_singleton.mp hb ▸ ha)

/-- A module that is new goes to the end. -/
theorem add_of_not_mem {module : String} {symbols : List String} {imports : Imports}
    (h : module ∉ imports.map (·.1)) :
    add module symbols imports = imports ++ [(module, addSymbols [] symbols)] := by
  induction imports with
  | nil => rfl
  | cons first imports ih =>
    obtain ⟨name, old⟩ := first
    rw [List.map_cons, List.mem_cons, not_or] at h
    rw [add, if_neg (by simpa using Ne.symm h.1), ih h.2]
    rfl

theorem Provided.tidy {dialect : Dialect} {entry : String × List String}
    (h : Provided dialect entry) : Tidy [entry] where
  nonempty := by simp
  modules := by simp
  entries e he := by
    rw [List.mem_singleton.mp he]
    exact ⟨dialect, h⟩

theorem Tidy.add_entry {imports : Imports} (h : Tidy imports) {dialect : Dialect}
    {entry : String × List String} (hentry : Provided dialect entry) :
    Tidy (imports.add entry.1 entry.2) where
  nonempty := by
    intro hnil
    have hmodules := add_modules entry.1 entry.2 imports
    rw [hnil] at hmodules
    split at hmodules
    · exact h.nonempty (List.map_eq_nil_iff.mp hmodules.symm)
    · simp at hmodules
  modules := nodup_add_modules h.modules entry.1 entry.2
  entries := by
    intro e he
    obtain ⟨s, hs⟩ := List.exists_mem_of_ne_nil _ hentry.nonempty
    have hadded : ∀ old : List String, old.Nodup → (∀ s ∈ old, s ∈ Mapping.moduleSymbols dialect) →
        Provided dialect (entry.1, addSymbols old entry.2) := fun old hnodup hold =>
      { module := hentry.module
        nonempty := List.ne_nil_of_mem (mem_addSymbols.mpr (.inr hs))
        nodup := nodup_addSymbols hnodup
        symbols := fun s hs => (mem_addSymbols.mp hs).elim (hold s) (hentry.symbols s) }
    rcases mem_add he with he | rfl | ⟨old, hmem, rfl⟩
    · exact h.entries e he
    · exact ⟨dialect, hadded [] List.nodup_nil (by simp)⟩
    · obtain ⟨other, hold⟩ := h.entries _ hmem
      obtain rfl : other = dialect :=
        Mapping.standardModule_injective (hold.module.symm.trans hentry.module)
      exact ⟨other, hadded old hold.nodup hold.symbols⟩

/-- Gathering entries for different modules gives them back. -/
theorem gather_eq {imports : Imports} (hmodules : (imports.map (·.1)).Nodup)
    (hsymbols : ∀ entry ∈ imports, entry.2.Nodup) :
    imports.foldl (fun others entry => add entry.1 entry.2 others) [] = imports := by
  have hall : ∀ rest gathered : Imports, ((gathered ++ rest).map (·.1)).Nodup →
      (∀ entry ∈ rest, entry.2.Nodup) →
      rest.foldl (fun others entry => add entry.1 entry.2 others) gathered =
        gathered ++ rest := by
    intro rest
    induction rest with
    | nil => simp
    | cons entry rest ih =>
      intro gathered hmodules hsymbols
      have hnew : entry.1 ∉ gathered.map (·.1) := by
        rw [List.map_append] at hmodules
        exact fun hmem => (List.nodup_append.mp hmodules).2.2 _ hmem entry.1 (by simp) rfl
      have hnodup : ([] ++ entry.2).Nodup := hsymbols entry (by simp)
      have hentry : addSymbols [] entry.2 = entry.2 := addSymbols_of_nodup hnodup
      rw [List.foldl_cons, add_of_not_mem hnew, hentry,
        ih _ (by simpa using hmodules) fun e he => hsymbols e (List.mem_cons_of_mem _ he)]
      simp
  exact hall imports [] hmodules hsymbols

end Imports

namespace Mapping

variable {names : ModelNames} {fields : List Field} {dialect : Dialect} {options : TableOptions}

theorem standardColumn_module {c : Column} (hc : c ∈ standardColumns names fields dialect options) :
    c.module = standardModule dialect := by
  rcases standardColumns_cases hc with rfl | ⟨f, -, rfl⟩ | ⟨key, -, rfl⟩ <;> rfl

theorem standardColumn_imports {c : Column} (hc : c ∈ standardColumns names fields dialect options) :
    ∀ s ∈ c.imports, s ∈ moduleSymbols dialect := by
  intro s hs
  rcases standardColumns_cases hc with rfl | ⟨f, -, rfl⟩ | ⟨key, -, rfl⟩
  · rw [keyColumn, List.mem_singleton] at hs
    rw [hs]
    have hboth : ∀ uuid, (standardId dialect uuid).1 ∈
        [false, true].map fun uuid => (standardId dialect uuid).1 := fun uuid =>
      List.mem_map_of_mem (by cases uuid <;> decide)
    simp only [moduleSymbols, List.cons_append, List.mem_cons, List.mem_append]
    exact .inr (.inl (.inl (hboth _)))
  · rw [fieldColumn, List.mem_cons] at hs
    simp only [moduleSymbols, List.cons_append, List.mem_cons, List.mem_append]
    rcases hs with rfl | hs
    · exact .inr (.inl (.inr (List.mem_map_of_mem (FieldType.mem_all f.type))))
    · have hany : s = dialect.anyColumnType := by
        rcases reference_text f dialect names.tableName with ⟨-, he⟩ | ⟨-, he | he⟩ <;> rw [he] at hs
        · cases hs
        · cases hs
        · exact List.mem_singleton.mp hs
      exact .inr (.inr (.inr (.inl hany)))
  · rw [stampColumn, List.mem_singleton] at hs
    rw [hs]
    simp [moduleSymbols]

/-- A table needs one entry, of the module of its dialect. -/
theorem standardTable_requiredImports :
    ∃ entry, (standardTable names fields dialect options).requiredImports = [entry] ∧
      Imports.Provided dialect entry := by
  have hall : ∀ columns : List Column,
      (∀ c ∈ columns, c ∈ standardColumns names fields dialect options) →
      ∀ entry, Imports.Provided dialect entry → ∃ entry',
        columns.foldl (fun imports c => Imports.add c.module c.imports imports) [entry] = [entry'] ∧
          Imports.Provided dialect entry' := by
    intro columns hcolumns
    induction columns with
    | nil => exact fun entry h => ⟨entry, rfl, h⟩
    | cons c columns ih =>
      intro entry h
      have hc := hcolumns c (by simp)
      have hadd : Imports.add c.module c.imports [entry] =
          [(entry.1, addSymbols entry.2 c.imports)] := by
        rw [standardColumn_module hc, ← h.module]
        simp [Imports.add]
      obtain ⟨s, hs⟩ := List.exists_mem_of_ne_nil _ h.nonempty
      rw [List.foldl_cons, hadd]
      exact ih (fun c' hc' => hcolumns c' (List.mem_cons_of_mem _ hc')) _
        { module := h.module
          nonempty := List.ne_nil_of_mem (mem_addSymbols.mpr (.inl hs))
          nodup := nodup_addSymbols h.nodup
          symbols := fun s hs =>
            (mem_addSymbols.mp hs).elim (h.symbols s) (standardColumn_imports hc s) }
  refine hall _ (fun c hc => hc) (standardModule dialect, [standardTableFunction dialect])
    ⟨rfl, by simp, by simp, ?_⟩
  intro s hs
  rw [List.mem_singleton.mp hs]
  simp [moduleSymbols]

end Mapping

namespace Definition

variable (d : Definition)

theorem column_module {c : Column} (hc : c ∈ d.table.columns) :
    c.module = Mapping.standardModule d.dialect := by
  rw [d.table_eq, Mapping.standardTable] at hc
  exact Mapping.standardColumn_module hc

theorem column_imports {c : Column} (hc : c ∈ d.table.columns) :
    ∀ s ∈ c.imports, s ∈ Mapping.moduleSymbols d.dialect := by
  rw [d.table_eq, Mapping.standardTable] at hc
  exact Mapping.standardColumn_imports hc

theorem requiredImports_eq : ∃ entry, d.table.requiredImports = [entry] ∧
    Imports.Provided d.dialect entry := by
  rw [d.table_eq]
  exact Mapping.standardTable_requiredImports

end Definition
end SchemaScaffold
