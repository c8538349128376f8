import SchemaScaffold.Proofs.Table.Mentions
import SchemaScaffold.Proofs.Table.Uses

/-!
The imports of a table and the free names of its text. What a column imports is exactly what its
code has to get from elsewhere, so the symbols that a table needs are the free names of the whole
text: a native enum is declared before the columns that call it, and no such variable has the name of
something that is imported.
-/

namespace SchemaScaffold

open Source Naming Text

/-! ## Symbols in the order of their first use -/

theorem addSymbols_eq_eraseDups {old new : List String} (h : old.Nodup) :
    addSymbols old new = (old ++ new).eraseDups := by
  induction new generalizing old with
  | nil => rw [List.append_nil, eraseDups_of_nodup h, addSymbols, List.foldl_nil]
  | cons s new ih =>
    by_cases hs : s ∈ old
    · have hstep : addSymbols old (s :: new) = addSymbols old new := by
        rw [addSymbols, List.foldl_cons, if_pos (by simpa using hs), addSymbols]
      have hremove : (s :: new).removeAll old = new.removeAll old := by
        simp [List.removeAll, hs]
      rw [hstep, ih h, List.eraseDups_append, List.eraseDups_append, hremove]
    · have hstep : addSymbols old (s :: new) = addSymbols (old ++ [s]) new := by
        rw [addSymbols, List.foldl_cons, if_neg (by simpa using hs), addSymbols]
      have hnodup : (old ++ [s]).Nodup := by
        refine List.nodup_append.mpr ⟨h, by simp, ?_⟩
        rintro t ht t' ht' rfl
        exact hs (List.mem_singleton.mp ht' ▸ ht)
      rw [hstep, ih hnodup, List.append_assoc, List.singleton_append]

namespace Mapping

/-! ## Columns -/

theorem filterMap_types (mentions : List Mention) (types : List String) :
    (types.map Mention.type).filterMap (Mention.free? mentions) = types := by
  rw [List.filterMap_map]
  exact List.filterMap_some

theorem freeNames_call (b : String) (types : List String) :
    freeNames (.call b :: types.map .type) = b :: types := by
  have hb : Mention.enum b ∉ Mention.call b :: types.map .type := by simp
  have hcall : (Mention.call b).free? (.call b :: types.map .type) = some b := if_neg hb
  rw [freeNames, List.filterMap_cons_some hcall, filterMap_types]

/-- The variable of an enum is no free name of the code that declares it. -/
theorem freeNames_enum {v : String} (h : v ≠ "pgEnum") (types : List String) :
    freeNames (.enum v :: .call "pgEnum" :: .call v :: types.map .type) = "pgEnum" :: types := by
  have hall : ∀ mentions : List Mention, Mention.enum v ∈ mentions →
      Mention.enum "pgEnum" ∉ mentions →
      (Mention.enum v :: .call "pgEnum" :: .call v :: types.map .type).filterMap
        (Mention.free? mentions) = "pgEnum" :: types := by
    intro mentions hv hother
    have hmake : (Mention.call "pgEnum").free? mentions = some "pgEnum" := if_neg hother
    have hcall : (Mention.call v).free? mentions = none := if_pos hv
    rw [List.filterMap_cons_none rfl, List.filterMap_cons_some hmake,
      List.filterMap_cons_none hcall, filterMap_types]
  exact hall _ (by simp) (by simp [Ne.symm h])

end Mapping

/-- The code that a column adds to a table: its native enum declarations, and its line. -/
def Column.code (c : Column) : List Char :=
  c.declarations.flatMap (fun declaration => declaration.toList ++ ['\n']) ++ c.chunk

theorem Column.code_plain {c : Column} {mentions : List Mention} (hplain : c.declarations = [])
    (hchunk : Mentions c.chunk mentions) : Mentions c.code mentions := by
  rw [Column.code, hplain]
  exact hchunk

theorem Mapping.builder_of_nativeEnum {dialect : Dialect} {f : Field}
    (h : (standardType dialect f.type).nativeEnum = true) :
    (standardType dialect f.type).builder = "pgEnum" := by
  obtain ⟨hdialect, htype⟩ := (standardType_nativeEnum _ _).mp h
  rw [hdialect, htype]
  rfl

namespace Definition

variable (d : Definition)

theorem enumVariable_ne (hname : d.table.name ≠ "") {f : Field} (hf : f ∈ d.fields) :
    Mapping.enumVariable d.table.name f ≠ "pgEnum" := by
  intro he
  refine d.enumVariable_not_symbol hname hf .postgresql ?_
  rw [he]
  decide

theorem mentions_fieldCode (hname : d.table.name ≠ "") {f : Field} (hf : f ∈ d.fields) :
    ∃ mentions, Mentions (Mapping.fieldColumn d.dialect d.table.name f).code mentions ∧
      freeNames mentions = (Mapping.fieldColumn d.dialect d.table.name f).imports := by
  have hchunk := Mapping.mentions_fieldChunk d.name_chars (d.field_accepted hf) d.dialect
  have hdeclared := Mapping.fieldColumn_declarations d.dialect d.table.name f
  by_cases henum : (Mapping.standardType d.dialect f.type).nativeEnum = true
  · rw [if_pos henum] at hdeclared
    have hdeclaration := Mapping.mentions_enumDeclaration d.name_chars (d.field_accepted hf)
    refine ⟨Mapping.enumMentions d.table.name f ++ Mapping.fieldMentions d.dialect d.table.name f,
      ?_, ?_⟩
    · rw [Column.code, ← List.flatMap_map String.toList (· ++ ['\n']), hdeclared,
        List.flatMap_singleton]
      exact hdeclaration.append hchunk
    · unfold Mapping.enumMentions Mapping.fieldMentions Mapping.called Mapping.fieldColumn
      rw [if_pos henum, Mapping.builder_of_nativeEnum henum]
      exact Mapping.freeNames_enum (d.enumVariable_ne hname hf) _
  · rw [if_neg henum, List.map_eq_nil_iff] at hdeclared
    refine ⟨_, Column.code_plain hdeclared hchunk, ?_⟩
    unfold Mapping.fieldMentions Mapping.called Mapping.fieldColumn
    rw [if_neg henum]
    exact Mapping.freeNames_call _ _

/-- The free names of a column's code are what the column imports. -/
theorem mentions_code (hname : d.table.name ≠ "") {c : Column} (hc : c ∈ d.table.columns) :
    ∃ mentions, Mentions c.code mentions ∧ freeNames mentions = c.imports := by
  rcases d.column_cases hc with rfl | ⟨f, hf, rfl⟩ | ⟨key, hkey, rfl⟩
  · exact ⟨_, Column.code_plain rfl (Mapping.mentions_keyChunk _ _), Mapping.freeNames_call _ []⟩
  · exact d.mentions_fieldCode hname hf
  · exact ⟨_, Column.code_plain rfl (Mapping.mentions_stampChunk _ hkey),
      Mapping.freeNames_call _ []⟩

/-! ## Tables -/

/-- The symbols of a table, each at its first use. -/
theorem requiredImports_symbols : d.table.requiredImports =
    [(Mapping.standardModule d.dialect,
      (d.table.function :: d.table.columns.flatMap Column.imports).eraseDups)] := by
  have hall : ∀ columns : List Column, (∀ c ∈ columns, c ∈ d.table.columns) → ∀ symbols,
      columns.foldl (fun imports c => Imports.add c.module c.imports imports)
        [(Mapping.standardModule d.dialect, symbols)] =
      [(Mapping.standardModule d.dialect, addSymbols symbols (columns.flatMap Column.imports))] := by
    intro columns hcolumns
    induction columns with
    | nil => exact fun symbols => rfl
    | cons c columns ih =>
      intro symbols
      have hadd : Imports.add c.module c.imports [(Mapping.standardModule d.dialect, symbols)] =
          [(Mapping.standardModule d.dialect, addSymbols symbols c.imports)] := by
        rw [d.column_module (hcolumns c (by simp))]
        simp [Imports.add]
      rw [List.foldl_cons, hadd, ih fun c' hc' => hcolumns c' (List.mem_cons_of_mem _ hc'),
        List.flatMap_cons, addSymbols, addSymbols, addSymbols, List.foldl_append]
  have hone : [d.table.function].Nodup := by simp
  rw [Table.requiredImports, d.module_eq, hall _ fun c hc => hc, addSymbols_eq_eraseDups hone,
    List.singleton_append]

theorem mem_columnMentions {mention : Mention} : mention ∈ d.columnMentions ↔
    mention = .call (Mapping.standardId d.dialect d.options.uuid).1 ∨
      (∃ f ∈ d.fields, mention ∈ Mapping.fieldMentions d.dialect d.table.name f) ∨
      (d.options.timestamps = true ∧
        mention = .call (Mapping.standardTimestamp d.dialect).builder) := by
  unfold columnMentions
  cases d.options.timestamps <;> simp [Mapping.timestampFields]

theorem mem_imports {x : String} : x ∈ d.table.columns.flatMap Column.imports ↔
    x = (Mapping.standardId d.dialect d.options.uuid).1 ∨
      (∃ f ∈ d.fields, x = (Mapping.standardType d.dialect f.type).builder ∨
        x ∈ (Mapping.reference f d.dialect d.table.name).2) ∨
      (d.options.timestamps = true ∧ x = (Mapping.standardTimestamp d.dialect).builder) := by
  rw [d.columns_eq]
  cases d.options.timestamps <;>
    simp [Mapping.timestampFields, Mapping.keyColumn, Mapping.fieldColumn, Mapping.stampColumn,
      List.flatMap_map]

theorem mem_enumMentions {mention : Mention} :
    mention ∈ (Mapping.nativeEnums d.dialect d.fields).flatMap
        (Mapping.enumMentions d.table.name) ↔
      ∃ f ∈ d.fields, (Mapping.standardType d.dialect f.type).nativeEnum = true ∧
        (mention = .enum (Mapping.enumVariable d.table.name f) ∨ mention = .call "pgEnum") := by
  simp [Mapping.nativeEnums, Mapping.enumMentions, and_assoc]

theorem enum_mem_mentions {x : String} : .enum x ∈ d.mentions ↔ ∃ f ∈ d.fields,
    (Mapping.standardType d.dialect f.type).nativeEnum = true ∧
      x = Mapping.enumVariable d.table.name f := by
  simp [mentions, d.mem_enumMentions, d.mem_columnMentions, Mapping.fieldMentions]

theorem type_mem_mentions {x : String} : .type x ∈ d.mentions ↔
    ∃ f ∈ d.fields, x ∈ (Mapping.reference f d.dialect d.table.name).2 := by
  simp [mentions, d.mem_enumMentions, d.mem_columnMentions, Mapping.fieldMentions]

theorem call_mem_mentions {x : String} : .call x ∈ d.mentions ↔
    (∃ f ∈ d.fields, (Mapping.standardType d.dialect f.type).nativeEnum = true ∧ x = "pgEnum") ∨
      x = d.table.function ∨ x = (Mapping.standardId d.dialect d.options.uuid).1 ∨
      (∃ f ∈ d.fields, x = Mapping.called d.dialect d.table.name f) ∨
      (d.options.timestamps = true ∧ x = (Mapping.standardTimestamp d.dialect).builder) := by
  simp [mentions, d.mem_enumMentions, d.mem_columnMentions, Mapping.fieldMentions]

/-- What a table declares as an enum is nothing that it imports. -/
theorem enum_not_symbol (hname : d.table.name ≠ "") {x : String}
    (hx : x ∈ Mapping.moduleSymbols d.dialect) : .enum x ∉ d.mentions := by
  rw [d.enum_mem_mentions]
  rintro ⟨f, hf, -, rfl⟩
  exact d.enumVariable_not_symbol hname hf d.dialect hx

theorem symbols_provided {x : String}
    (hx : x ∈ d.table.function :: d.table.columns.flatMap Column.imports) :
    x ∈ Mapping.moduleSymbols d.dialect := by
  rcases List.mem_cons.mp hx with rfl | hx
  · rw [d.function_eq]
    simp [Mapping.moduleSymbols]
  · obtain ⟨c, hc, hx⟩ := List.mem_flatMap.mp hx
    exact d.column_imports hc x hx

/-- The free names of a table's text are the function that makes it and what its columns import. -/
theorem mem_freeNames_mentions (hname : d.table.name ≠ "") {x : String} :
    x ∈ freeNames d.mentions ↔
      x ∈ d.table.function :: d.table.columns.flatMap Column.imports := by
  rw [mem_freeNames]
  constructor
  · rw [List.mem_cons, d.mem_imports, d.call_mem_mentions, d.enum_mem_mentions,
      d.type_mem_mentions]
    rintro (⟨(⟨f, hf, henum, rfl⟩ | rfl | rfl | ⟨f, hf, rfl⟩ | hstamp), hdeclared⟩ | ⟨f, hf, htype⟩)
    · exact .inr (.inr (.inl ⟨f, hf, .inl (Mapping.builder_of_nativeEnum henum).symm⟩))
    · exact .inl rfl
    · exact .inr (.inl rfl)
    · -- the variable of an enum is declared; any other column calls its builder
      by_cases henum : (Mapping.standardType d.dialect f.type).nativeEnum = true
      · exact absurd ⟨f, hf, henum, if_pos henum⟩ hdeclared
      · exact .inr (.inr (.inl ⟨f, hf, .inl (if_neg henum)⟩))
    · exact .inr (.inr (.inr hstamp))
    · exact .inr (.inr (.inl ⟨f, hf, .inr htype⟩))
  · intro hx
    have hfree := d.enum_not_symbol hname (d.symbols_provided hx)
    rw [List.mem_cons, d.mem_imports] at hx
    rw [d.call_mem_mentions, d.type_mem_mentions]
    rcases hx with rfl | rfl | ⟨f, hf, rfl | htype⟩ | hstamp
    · exact .inl ⟨.inr (.inl rfl), hfree⟩
    · exact .inl ⟨.inr (.inr (.inl rfl)), hfree⟩
    · refine .inl ⟨?_, hfree⟩
      -- a native enum is made by its builder, and its column calls the variable
      by_cases henum : (Mapping.standardType d.dialect f.type).nativeEnum = true
      · exact .inl ⟨f, hf, henum, Mapping.builder_of_nativeEnum henum⟩
      · exact .inr (.inr (.inr (.inl ⟨f, hf, (if_neg henum).symm⟩)))
    · exact .inr ⟨f, hf, htype⟩
    · exact .inl ⟨.inr (.inr (.inr (.inr hstamp))), hfree⟩

end Definition
namespace Mapping

/-- The imports of a table are exactly the free names of its text, the table function first and then
each symbol where the columns first use it. -/
theorem requiredImports_free {model : String} {raws : List String} {fields : List Field}
    (accepted : validateModelName model = .ok ()) (named : (ModelNames.of model).tableName ≠ "")
    (parsed : Field.parseAll raws = .ok fields) (dialect : Dialect) (options : TableOptions)
    (distinct : checkColumnNames fields options.timestamps = .ok ()) :
    ∃ table symbols,
      standard.table (ModelNames.of model) fields dialect options = .ok table ∧
      table.requiredImports = [(standardModule dialect, symbols)] ∧
      symbols.head? = some (standardTableFunction dialect) ∧ symbols.Nodup ∧
      symbols =
        (standardTableFunction dialect :: table.columns.flatMap Column.imports).eraseDups ∧
      (∀ c ∈ table.columns, (∀ x, x ∈ c.imports ↔ Free (tokens c.code) x) ∧
        (c.imports.map fun x => Token.name x.toList).Sublist (tokens c.code)) ∧
      ∀ x, x ∈ symbols ↔ Free (tokens table.render.toList) x := by
  let d := Definition.build model raws dialect options accepted parsed distinct
  have hname : d.table.name ≠ "" := by
    rw [← d.tableName_eq]
    exact named
  have hfunction : d.table.function = standardTableFunction dialect := d.function_eq
  obtain ⟨entry, hentry, hprovided⟩ := d.requiredImports_eq
  have hsymbols := d.requiredImports_symbols
  rw [hfunction] at hsymbols
  refine ⟨d.table, _, d.built, hsymbols, ?_, ?_, rfl, fun c hc => ?_, fun x => ?_⟩
  · rw [List.eraseDups_cons, List.head?_cons]
  · rw [hsymbols, List.singleton_inj] at hentry
    have hnodup := hprovided.nodup
    rwa [← hentry] at hnodup
  · obtain ⟨mentions, hmentions, hfree⟩ := d.mentions_code hname hc
    refine ⟨fun x => ?_, ?_⟩
    · rw [hmentions.free_iff, hfree]
    · rw [← hfree]
      exact hmentions.freeNames_sublist
  · rw [List.mem_eraseDups, (d.mentions_render hname).free_iff, d.mem_freeNames_mentions hname,
      hfunction]

/-- A category with a parent and a native enum, one of whose values reads like a builder's call. -/
theorem requiredImports_free_category :
    let raws := ["parentId?:references:category", "state:enum:open,text()"]
    let fields : List Field := [
      { name := "parentId", type := .reference, nullable := true, target := some "category" },
      { name := "state", type := .enum, enumValues := some ["open", "text()"] }]
    validateModelName "Category" = .ok () ∧ (ModelNames.of "Category").tableName ≠ "" ∧
      Field.parseAll raws = .ok fields ∧ checkColumnNames fields true = .ok () ∧
      ∃ table, standard.table (ModelNames.of "Category") fields .postgresql {} = .ok table ∧
        ∀ x, x ∈ ["pgTable", "serial", "integer", "AnyPgColumn", "pgEnum", "timestamp"] ↔
          Free (tokens table.render.toList) x := by
  intro raws fields
  have hname : (ModelNames.of "Category").tableName ≠ "" := by decide
  have hparsed : Field.parseAll raws = .ok fields := by decide
  have hdistinct : checkColumnNames fields true = .ok () := by rfl
  obtain ⟨table, symbols, htable, hsymbols, -, -, -, -, hfree⟩ :=
    requiredImports_free rfl hname hparsed .postgresql {} hdistinct
  refine ⟨rfl, hname, hparsed, hdistinct, table, htable, fun x => ?_⟩
  have hcomputed : (standard.table (ModelNames.of "Category") fields .postgresql {}).map
      Table.requiredImports = .ok [(standardModule .postgresql,
        ["pgTable", "serial", "integer", "AnyPgColumn", "pgEnum", "timestamp"])] := by
    decide +kernel
  rw [htable] at hcomputed
  have hrequired := Except.ok.inj hcomputed
  rw [hsymbols, List.singleton_inj, Prod.mk.injEq] at hrequired
  rw [← hrequired.2]
  exact hfree x

end Mapping
end SchemaScaffold
