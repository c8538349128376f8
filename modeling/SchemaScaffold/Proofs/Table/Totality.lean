import SchemaScaffold.Proofs.Outcome
import SchemaScaffold.Table

/-!
What the check of a mapping is worth. A table is built from a handful of cells, and the lookups fail
exactly where one of them is gone. Every cell is needed by some table, so a mapping serves every
table exactly when it has no gap, and the check names the gaps it has.
-/

namespace SchemaScaffold

open Naming

/-- What the check reports on: a column type, a primary key, the timestamps of a dialect, or its
module together with its table function. -/
inductive Cell
  | column (type : FieldType) (dialect : Dialect)
  | id (dialect : Dialect) (uuid : Bool)
  | timestamps (dialect : Dialect)
  | module (dialect : Dialect)
  deriving Repr, DecidableEq

namespace Cell

def dialect : Cell → Dialect
  | .column _ dialect | .id dialect _ | .timestamps dialect | .module dialect => dialect

def label : Cell → String
  | .column type dialect => type.name ++ "/" ++ dialect.name
  | .id dialect uuid => "id" ++ uuidLabel uuid ++ "/" ++ dialect.name
  | .timestamps dialect => "timestamps" ++ "/" ++ dialect.name
  | .module dialect => "module" ++ "/" ++ dialect.name

/-- The cells of one dialect, in the order of the report. -/
def ofDialect (dialect : Dialect) : List Cell :=
  FieldType.all.map (column · dialect) ++ [false, true].map (id dialect) ++ [timestamps dialect] ++
    [module dialect]

def all : List Cell := Dialect.all.flatMap ofDialect

theorem mem_ofDialect (cell : Cell) : cell ∈ ofDialect cell.dialect := by
  cases cell with
  | column type dialect => simp [ofDialect, Cell.dialect, FieldType.mem_all]
  | id dialect uuid => cases uuid <;> simp [ofDialect, Cell.dialect]
  | timestamps dialect => simp [ofDialect, Cell.dialect]
  | module dialect => simp [ofDialect, Cell.dialect]

theorem mem_all (cell : Cell) : cell ∈ all :=
  List.mem_flatMap.mpr ⟨cell.dialect, Dialect.mem_all _, mem_ofDialect cell⟩

theorem dialect_of_mem {cell : Cell} {dialect : Dialect} (h : cell ∈ ofDialect dialect) :
    cell.dialect = dialect := by
  simp only [ofDialect, List.mem_append, List.mem_map, List.mem_singleton] at h
  rcases h with ((⟨_, _, rfl⟩ | ⟨_, _, rfl⟩) | rfl) | rfl <;> rfl

/-- The place of a cell's dialect in the report. -/
def rank (cell : Cell) : Nat := Dialect.all.idxOf cell.dialect

theorem all_ranked : all.Pairwise (·.rank ≤ ·.rank) := by
  refine List.pairwise_flatMap.mpr ⟨fun dialect _ => ?_, ?_⟩
  · refine List.pairwise_of_forall_mem_list fun a ha b hb => ?_
    simp only [rank, dialect_of_mem ha, dialect_of_mem hb, Nat.le_refl]
  · have hsorted : Dialect.all.Pairwise fun d d' => Dialect.all.idxOf d ≤ Dialect.all.idxOf d' := by
      decide
    refine hsorted.imp fun hle a ha b hb => ?_
    rw [rank, rank, dialect_of_mem ha, dialect_of_mem hb]
    exact hle

theorem labels_distinct : (all.map label).Nodup := by decide +kernel

end Cell

namespace Mapping

def lacks (m : Mapping) : Cell → Bool
  | .column type dialect => (m.columnType type dialect).isNone
  | .id dialect uuid => (m.idColumn dialect uuid).isNone
  | .timestamps dialect => (m.timestamp dialect).isNone
  | .module dialect => (m.moduleName dialect).isNone || (m.tableFunction dialect).isNone

section Check

variable (m : Mapping)

theorem flatMap_gap {α : Type} (l : List α) (isGap : α → Bool) (label : α → String) :
    l.flatMap (fun a => if isGap a then [label a] else []) = (l.filter isGap).map label := by
  induction l with
  | nil => rfl
  | cons a l ih => cases h : isGap a <;> simp [h, ih]

/-- The report goes through the cells of a dialect in order, and labels those it lacks. -/
theorem missingIn_eq (dialect : Dialect) :
    m.missingIn dialect = ((Cell.ofDialect dialect).filter m.lacks).map Cell.label := by
  have hsingle (cell : Cell) : ([cell].filter m.lacks).map Cell.label =
      if m.lacks cell then [cell.label] else [] := by
    cases h : m.lacks cell <;> simp [h]
  simp only [Cell.ofDialect, List.filter_append, List.map_append, List.filter_map, List.map_map,
    hsingle]
  unfold missingIn
  simp only [flatMap_gap]
  rfl

theorem missing_eq : m.missing = (Cell.all.filter m.lacks).map Cell.label := by
  rw [missing, Cell.all, List.filter_flatMap, List.map_flatMap, funext m.missingIn_eq]

/-- The check accepts just the mappings that lack no cell. -/
theorem check_ok_iff : m.check = .ok () ↔ ∀ cell, m.lacks cell = false := by
  have hempty : m.missing.isEmpty = true ↔ ∀ cell, m.lacks cell = false := by
    simp [missing_eq, Cell.mem_all]
  rw [← hempty, check]
  cases m.missing.isEmpty <;> simp

theorem incomplete_message (labels : List String) : (MappingError.incomplete labels).message =
    "Unmapped column types: " ++ ", ".intercalate labels := rfl

theorem check_error {e : MappingError} (h : m.check = .error e) : e = .incomplete m.missing := by
  rw [check] at h
  split at h
  · cases h
  · exact (Except.error.inj h).symm

end Check

section Lookups

variable (m : Mapping) (names : ModelNames) (fields : List Field) (dialect : Dialect)
  (options : TableOptions)

theorem isOk_moduleOf : (m.moduleOf dialect).isOk = (m.moduleName dialect).isSome := by
  unfold moduleOf
  cases m.moduleName dialect <;> rfl

theorem isOk_column (f : Field) (table : String) : (m.column f dialect table).isOk =
    ((m.columnType f.type dialect).isSome && (m.moduleName dialect).isSome) := by
  unfold column
  cases m.columnType f.type dialect with
  | none => rfl
  | some type => exact (isOk_bind_pure _ _).trans (m.isOk_moduleOf dialect)

theorem isOk_primaryKey (uuid : Bool) : (m.primaryKey dialect uuid).isOk =
    ((m.idColumn dialect uuid).isSome && (m.moduleName dialect).isSome) := by
  unfold primaryKey
  cases m.idColumn dialect uuid with
  | none => rfl
  | some key => exact (isOk_bind_pure _ _).trans (m.isOk_moduleOf dialect)

theorem isOk_timestampColumns : (m.timestampColumns dialect).isOk =
    ((m.timestamp dialect).isSome && (m.moduleName dialect).isSome) := by
  unfold timestampColumns
  cases m.timestamp dialect with
  | none => rfl
  | some type => exact (isOk_bind_pure _ _).trans (m.isOk_moduleOf dialect)

/-- The cells that the table of a model is looked up in. -/
def needed : List Cell :=
  .id dialect options.uuid :: .module dialect :: fields.map (.column ·.type dialect) ++
    if options.timestamps then [.timestamps dialect] else []

/-- The lookups of a table, once its column names are known to be free. -/
def lookups : Except MappingError Table := do
  let columns ← m.columns names fields dialect options
  let module ← m.moduleOf dialect
  let some function := m.tableFunction dialect | .error (.noTableFunction dialect)
  return { name := names.tableName, exportName := names.camelPlural, module, function, columns }

theorem table_eq_lookups : m.table names fields dialect options =
    ((checkColumnNames fields options.timestamps).mapError .clash >>= fun _ =>
      (m.lookups names fields dialect options).mapError .mapping) := by
  unfold table lookups
  cases checkColumnNames fields options.timestamps with
  | error clash => rfl
  | ok _ =>
    cases m.columns names fields dialect options with
    | error e => rfl
    | ok columns =>
      cases m.moduleOf dialect with
      | error e => rfl
      | ok module =>
        cases m.tableFunction dialect <;> rfl

theorem isOk_columns : (m.columns names fields dialect options).isOk =
    ((m.primaryKey dialect options.uuid).isOk &&
      (fields.all (fun f => (m.column f dialect names.tableName).isOk) &&
        (!options.timestamps || (m.timestampColumns dialect).isOk))) := by
  rw [columns, ← isOk_mapM]
  refine isOk_bind fun key => isOk_bind fun own => ?_
  cases options.timestamps with
  | false => rfl
  | true => exact isOk_bind_pure _ _

/-- The lookups succeed exactly when every cell they need is there. -/
theorem isOk_lookups : (m.lookups names fields dialect options).isOk =
    (needed fields dialect options).all fun cell => !m.lacks cell := by
  have hlookups : (m.lookups names fields dialect options).isOk =
      ((m.columns names fields dialect options).isOk &&
        ((m.moduleName dialect).isSome && (m.tableFunction dialect).isSome)) := by
    rw [lookups, ← isOk_moduleOf]
    refine isOk_bind fun columns => isOk_bind fun module => ?_
    cases m.tableFunction dialect <;> rfl
  rw [hlookups, isOk_columns, isOk_primaryKey, isOk_timestampColumns]
  -- Every column asks for the module, so without it nothing else matters.
  cases hmodule : (m.moduleName dialect).isSome with
  | false => simp [needed, lacks, hmodule]
  | true =>
    rw [needed]
    cases options.timestamps <;>
      simp [lacks, isOk_column, hmodule, List.all_map, Function.comp_def, Bool.and_comm,
        Bool.and_left_comm]

/-- What the lookups of a table fail on: a cell that it needs and the mapping lacks. -/
theorem table_mapping_error_iff : (∃ e, m.table names fields dialect options = .error (.mapping e)) ↔
    checkColumnNames fields options.timestamps = .ok () ∧
      ∃ cell ∈ needed fields dialect options, m.lacks cell = true := by
  have hlookups : (∃ cell ∈ needed fields dialect options, m.lacks cell = true) ↔
      (m.lookups names fields dialect options).isOk = false := by
    simp [isOk_lookups]
  rw [hlookups, table_eq_lookups]
  cases checkColumnNames fields options.timestamps with
  | error clash =>
    constructor
    · rintro ⟨e, h⟩
      cases h
    · rintro ⟨h, -⟩
      cases h
  | ok _ =>
    cases m.lookups names fields dialect options with
    | error e => exact iff_of_true ⟨e, rfl⟩ ⟨rfl, rfl⟩
    | ok table =>
      constructor
      · rintro ⟨e, h⟩
        cases h
      · rintro ⟨-, h⟩
        cases h

/-- No cell is idle: some list of valid fields, with free column names, asks for it. -/
theorem exists_needed (cell : Cell) : ∃ fields dialect options, (∀ f ∈ fields, f.checked = .ok f) ∧
    checkColumnNames fields options.timestamps = .ok () ∧ cell ∈ needed fields dialect options := by
  cases cell with
  | column type dialect =>
    let f : Field := { name := "value", type, enumValues := some ["a"], target := some "user" }
    refine ⟨[f], dialect, {}, ?_, rfl, by simp [needed, f]⟩
    cases type <;> simp [f] <;> rfl
  | id dialect uuid => exact ⟨[], dialect, { uuid }, by simp, rfl, by simp [needed]⟩
  | timestamps dialect => exact ⟨[], dialect, {}, by simp, rfl, by simp [needed]⟩
  | module dialect => exact ⟨[], dialect, {}, by simp, rfl, by simp [needed]⟩

/-- A mapping without gaps serves every table, and one with a gap fails some table of every model. -/
theorem check_ok_iff_serves : m.check = .ok () ↔
    ∀ fields dialect options, (∀ f ∈ fields, f.checked = .ok f) →
      ∀ e, m.table names fields dialect options ≠ .error (.mapping e) := by
  rw [check_ok_iff]
  constructor
  · intro hwhole fields dialect options _ e he
    obtain ⟨-, cell, -, hlacks⟩ :=
      (m.table_mapping_error_iff names fields dialect options).mp ⟨e, he⟩
    simp [hwhole cell] at hlacks
  · intro hserves cell
    obtain ⟨fields, dialect, options, hvalid, hdistinct, hneeded⟩ := exists_needed cell
    refine Bool.eq_false_iff.mpr fun hlacks => ?_
    obtain ⟨e, he⟩ := (m.table_mapping_error_iff names fields dialect options).mpr
      ⟨hdistinct, cell, hneeded, hlacks⟩
    exact hserves fields dialect options hvalid e he

end Lookups

/-- The cell is gone when its entry is taken out; the module of a dialect also goes with its table
function. -/
def Gaps.Lost (gaps : Gaps) : Cell → Prop
  | .column type dialect => (type, dialect) ∈ gaps.columnTypes
  | .id dialect uuid => (dialect, uuid) ∈ gaps.idColumns
  | .timestamps dialect => dialect ∈ gaps.timestamps
  | .module dialect => dialect ∈ gaps.modules ∨ dialect ∈ gaps.tableFunctions

theorem lacks_erase (gaps : Gaps) (cell : Cell) :
    (standard.erase gaps).lacks cell = true ↔ gaps.Lost cell := by
  cases cell with
  | column type dialect =>
    by_cases h : (type, dialect) ∈ gaps.columnTypes <;> cases dialect <;>
      simp [lacks, erase, Gaps.Lost, standard, h]
  | id dialect uuid =>
    by_cases h : (dialect, uuid) ∈ gaps.idColumns <;> simp [lacks, erase, Gaps.Lost, standard, h]
  | timestamps dialect =>
    by_cases h : dialect ∈ gaps.timestamps <;> simp [lacks, erase, Gaps.Lost, standard, h]
  | module dialect =>
    by_cases h : dialect ∈ gaps.modules <;> by_cases h' : dialect ∈ gaps.tableFunctions <;>
      simp [lacks, erase, Gaps.Lost, standard, h, h']

/-- The check is exact. Whatever cells are taken out, it accepts what is left if and only if no table
of valid fields then fails for want of a cell, and every model by itself would show the gap. What it
says otherwise names the lost cells and no others, each once, dialect by dialect. -/
theorem check_exact (gaps : Gaps) (names : ModelNames) :
    ((standard.erase gaps).check = .ok () ↔
      ∀ fields dialect options, (∀ f ∈ fields, f.checked = .ok f) →
        ∀ e, (standard.erase gaps).table names fields dialect options ≠ .error (.mapping e)) ∧
    ∀ e, (standard.erase gaps).check = .error e → ∃ cells : List Cell,
      e.message = "Unmapped column types: " ++ ", ".intercalate (cells.map Cell.label) ∧
      (∀ cell, cell ∈ cells ↔ gaps.Lost cell) ∧ (cells.map Cell.label).Nodup ∧
      cells.Pairwise (·.rank ≤ ·.rank) := by
  refine ⟨check_ok_iff_serves _ names, fun e he => ?_⟩
  refine ⟨Cell.all.filter (standard.erase gaps).lacks, ?_, fun cell => ?_, ?_, ?_⟩
  · rw [check_error _ he, missing_eq, incomplete_message]
  · rw [List.mem_filter, lacks_erase]
    exact and_iff_right cell.mem_all
  · exact Cell.labels_distinct.sublist (List.filter_sublist.map _)
  · exact Cell.all_ranked.filter _

/-- The whole mapping serves a table with a JSON column. Without that column under one dialect, and
without the table function of another, the report starts with the dialect that comes first. -/
theorem check_exact_two_gaps :
    (∀ e, (standard.erase {}).table (ModelNames.of "post") [{ name := "meta", type := .json }] .mysql
      {} ≠ .error (.mapping e)) ∧
    ∃ cells : List Cell, MappingError.message (.incomplete ["module/postgresql", "json/mysql"]) =
        "Unmapped column types: " ++ ", ".intercalate (cells.map Cell.label) ∧
      (∀ cell, cell ∈ cells ↔ Gaps.Lost
        { columnTypes := [(.json, .mysql)], tableFunctions := [.postgresql] } cell) ∧
      (cells.map Cell.label).Nodup ∧ cells.Pairwise (·.rank ≤ ·.rank) := by
  have hmissing : (standard.erase
      { columnTypes := [(.json, .mysql)], tableFunctions := [.postgresql] }).missing =
        ["module/postgresql", "json/mysql"] := by
    decide +kernel
  refine ⟨(check_exact {} (ModelNames.of "post")).1.mp rfl _ _ _ (by simp; rfl), ?_⟩
  refine (check_exact { columnTypes := [(.json, .mysql)], tableFunctions := [.postgresql] }
    (ModelNames.of "post")).2 _ ?_
  rw [check, hmissing]
  rfl

end Mapping
end SchemaScaffold
