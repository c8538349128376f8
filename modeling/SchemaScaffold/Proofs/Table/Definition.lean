import SchemaScaffold.Proofs.Field.Accepted
import SchemaScaffold.Proofs.Naming.Spellings
import SchemaScaffold.Table

/-!
Tables as the generator builds them. A definition carries the checks that its model name and its
fields have passed, so that every later lemma can take them for granted. The standard mapping has no
gaps, so its columns are given by plain functions.
-/

namespace SchemaScaffold

open Naming

/-- A table that was built from an accepted model name and parsed fields. -/
structure Definition where
  model : String
  raws : List String
  fields : List Field
  dialect : Dialect
  options : TableOptions
  table : Table
  accepted : validateModelName model = .ok ()
  parsed : Field.parseAll raws = .ok fields
  built : Mapping.standard.table (ModelNames.of model) fields dialect options = .ok table

namespace Mapping

def standardType (dialect : Dialect) (type : FieldType) : ColumnType :=
  match dialect with
  | .sqlite => sqliteColumn type
  | .postgresql => postgresqlColumn type
  | .mysql => mysqlColumn type

/-- What a field adds to the call that builds its column, but for its reference. -/
def modifiers (f : Field) : String :=
  (if f.nullable then "" else ".notNull()") ++ if f.unique then ".unique()" else ""

/-- The foreign key of a field, and what it imports. -/
def reference (f : Field) (dialect : Dialect) (table : String) : String × List String :=
  if f.isReference then foreignKey dialect table (f.target.getD "") else ("", [])

def fieldColumn (dialect : Dialect) (table : String) (f : Field) : Column where
  key := f.name
  expression := (builderCall (standardType dialect f.type) f table).1 ++ modifiers f ++
    (reference f dialect table).1
  imports := (standardType dialect f.type).builder :: (reference f dialect table).2
  module := standardModule dialect
  declarations := (builderCall (standardType dialect f.type) f table).2

def keyColumn (dialect : Dialect) (uuid : Bool) : Column where
  key := "id"
  expression := (standardId dialect uuid).2
  imports := [(standardId dialect uuid).1]
  module := standardModule dialect

def stampColumn (dialect : Dialect) (key : String) : Column where
  key
  expression := (standardTimestamp dialect).before ++ snakeCase key ++ (standardTimestamp dialect).after
  imports := [(standardTimestamp dialect).builder]
  module := standardModule dialect

/-- The foreign key of a field is a callback into its target. Where the value of the callback has a
type, that is the one import. -/
theorem reference_text (f : Field) (dialect : Dialect) (table : String) :
    (f.isReference = false ∧ reference f dialect table = ("", [])) ∨
      (f.isReference = true ∧
        (reference f dialect table =
            (".references(() => " ++ tableVariable (f.target.getD "") ++ ".id)", []) ∨
          reference f dialect table =
            (".references((): " ++ dialect.anyColumnType ++ " => " ++
              tableVariable (f.target.getD "") ++ ".id)", [dialect.anyColumnType]))) := by
  unfold reference foreignKey
  cases f.isReference with
  | false => exact .inl ⟨rfl, rfl⟩
  | true =>
    refine .inr ⟨rfl, ?_⟩
    rw [if_pos rfl]
    dsimp only
    split
    · exact .inr rfl
    · exact .inl rfl

theorem standard_column (dialect : Dialect) (table : String) (f : Field) :
    standard.column f dialect table = .ok (fieldColumn dialect table f) := by
  have htype : standard.columnType f.type dialect = some (standardType dialect f.type) := by
    cases dialect <;> rfl
  simp only [column, htype]
  show Except.ok _ = Except.ok _
  simp only [fieldColumn, modifiers, reference, String.append_assoc]

/-- The columns of a table, in order. -/
def standardColumns (names : ModelNames) (fields : List Field) (dialect : Dialect)
    (options : TableOptions) : List Column :=
  keyColumn dialect options.uuid :: fields.map (fieldColumn dialect names.tableName) ++
    if options.timestamps then timestampFields.map (stampColumn dialect) else []

theorem standard_columns (names : ModelNames) (fields : List Field) (dialect : Dialect)
    (options : TableOptions) : standard.columns names fields dialect options =
      .ok (standardColumns names fields dialect options) := by
  have hown : fields.mapM (fun f => standard.column f dialect names.tableName) =
      .ok (fields.map (fieldColumn dialect names.tableName)) :=
    mapM_total (standard_column dialect names.tableName) fields
  simp only [columns, hown, standardColumns]
  cases options.timestamps <;> rfl

/-- The columns are the generated ones and those of the fields. -/
theorem standardColumns_cases {names : ModelNames} {fields : List Field} {dialect : Dialect}
    {options : TableOptions} {c : Column} (hc : c ∈ standardColumns names fields dialect options) :
    c = keyColumn dialect options.uuid ∨
      (∃ f ∈ fields, c = fieldColumn dialect names.tableName f) ∨
      ∃ key ∈ timestampFields, c = stampColumn dialect key := by
  rw [standardColumns] at hc
  simp only [List.cons_append, List.mem_cons, List.mem_append, List.mem_map] at hc
  rcases hc with rfl | ⟨f, hf, rfl⟩ | hc
  · exact .inl rfl
  · exact .inr (.inl ⟨f, hf, rfl⟩)
  · split at hc
    · obtain ⟨key, hkey, rfl⟩ := List.mem_map.mp hc
      exact .inr (.inr ⟨key, hkey, rfl⟩)
    · cases hc

/-- The table of a model under the standard mapping. -/
def standardTable (names : ModelNames) (fields : List Field) (dialect : Dialect)
    (options : TableOptions) : Table where
  name := names.tableName
  exportName := names.camelPlural
  module := standardModule dialect
  function := standardTableFunction dialect
  columns := standardColumns names fields dialect options

/-- Only a clash of names keeps the standard mapping from building a table. -/
theorem standard_table (names : ModelNames) (fields : List Field) (dialect : Dialect)
    (options : TableOptions) : standard.table names fields dialect options =
      ((checkColumnNames fields options.timestamps).mapError .clash).map fun _ =>
        standardTable names fields dialect options := by
  unfold Mapping.table
  rw [standard_columns]
  cases checkColumnNames fields options.timestamps <;> rfl

theorem standardTable_of_built {names : ModelNames} {fields : List Field} {dialect : Dialect}
    {options : TableOptions} {table : Table}
    (h : standard.table names fields dialect options = .ok table) :
    table = standardTable names fields dialect options := by
  rw [standard_table] at h
  obtain ⟨_, -, h⟩ := map_ok h
  exact h.symm

end Mapping

namespace Definition

/-- Builds a definition from the checks that it rests on. -/
def build (model : String) (raws : List String) {fields : List Field} (dialect : Dialect)
    (options : TableOptions) (accepted : validateModelName model = .ok ())
    (parsed : Field.parseAll raws = .ok fields)
    (distinct : checkColumnNames fields options.timestamps = .ok ()) : Definition where
  model
  raws
  fields
  dialect
  options
  table := Mapping.standardTable (ModelNames.of model) fields dialect options
  accepted
  parsed
  built := by
    rw [Mapping.standard_table, distinct]
    rfl

variable (d : Definition)

theorem table_eq :
    d.table = Mapping.standardTable (ModelNames.of d.model) d.fields d.dialect d.options :=
  Mapping.standardTable_of_built d.built

theorem field_accepted {f : Field} (hf : f ∈ d.fields) : f.Accepted :=
  Field.parseAll_accepted d.parsed f hf

theorem name_eq : d.table.name = snakeCase (plural (singular d.model)) := by
  rw [d.table_eq, Mapping.standardTable, ModelNames.of]

theorem exportName_eq : d.table.exportName = camelCase (plural (singular d.model)) := by
  rw [d.table_eq, Mapping.standardTable, ModelNames.of]

theorem tableName_eq : (ModelNames.of d.model).tableName = d.table.name := by
  rw [d.table_eq, Mapping.standardTable]

theorem camelPlural_eq : (ModelNames.of d.model).camelPlural = d.table.exportName := by
  rw [d.table_eq, Mapping.standardTable]

theorem module_eq : d.table.module = Mapping.standardModule d.dialect := by
  rw [d.table_eq, Mapping.standardTable]

theorem function_eq : d.table.function = Mapping.standardTableFunction d.dialect := by
  rw [d.table_eq, Mapping.standardTable]

theorem columns_eq : d.table.columns =
    Mapping.keyColumn d.dialect d.options.uuid ::
      d.fields.map (Mapping.fieldColumn d.dialect d.table.name) ++
        if d.options.timestamps then Mapping.timestampFields.map (Mapping.stampColumn d.dialect)
        else [] := by
  rw [d.table_eq, Mapping.standardTable, Mapping.standardColumns]

/-- The columns are the generated ones and those of the fields. -/
theorem column_cases {c : Column} (hc : c ∈ d.table.columns) :
    c = Mapping.keyColumn d.dialect d.options.uuid ∨
      (∃ f ∈ d.fields, c = Mapping.fieldColumn d.dialect d.table.name f) ∨
      ∃ key ∈ Mapping.timestampFields, c = Mapping.stampColumn d.dialect key := by
  rw [← d.tableName_eq]
  rw [d.table_eq, Mapping.standardTable] at hc
  exact Mapping.standardColumns_cases hc

theorem model_chars : ∀ c ∈ d.model.toList, isNameChar c = true :=
  validateModelName_chars d.accepted

/-- The plural that the table's names are spelled from. -/
theorem plural_chars : ∀ c ∈ (plural (singular d.model)).toList, isNameChar c = true :=
  nameChars_plural d.model_chars

theorem name_chars : ∀ c ∈ d.table.name.toList, isSnakeChar c = true := by
  rw [d.name_eq]
  exact snakeCase_chars d.plural_chars

theorem exportName_chars : ∀ c ∈ d.table.exportName.toList, c.isAlphanum = true := by
  rw [d.exportName_eq]
  exact camelCase_chars d.plural_chars

end Definition
end SchemaScaffold
