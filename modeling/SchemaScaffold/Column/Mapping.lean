import SchemaScaffold.Dialect
import SchemaScaffold.Field.Basic

/-!
How fields become columns, dialect by dialect. The mapping is a value with one entry per cell, so
that a gap in it can be named: `missing` lists the gaps, and `check` accepts a mapping without any.
-/

namespace SchemaScaffold

/-- The second argument of a column builder. -/
inductive ColumnOptions
  /-- The builder takes the column name alone. -/
  | none
  /-- The same options for every field. -/
  | fixed (options : String)
  /-- An object that lists the values of an enum. -/
  | enumObject
  /-- The bare list of the values of an enum. -/
  | enumList
  deriving Repr, DecidableEq

/-- One cell of the mapping. A native enum declares a named type beside the table, and its columns
call that type in place of the builder. -/
structure ColumnType where
  builder : String
  options : ColumnOptions := .none
  nativeEnum : Bool := false
  deriving Repr, DecidableEq

/-- A generated timestamp column: its builder, and the text around the column name. -/
structure TimestampType where
  builder : String
  before : String
  after : String
  deriving Repr, DecidableEq

/-- The tables that columns and table definitions are looked up in. -/
structure Mapping where
  columnType : FieldType → Dialect → Option ColumnType
  /-- Builder and expression of the primary key, for a generated number or a UUID. -/
  idColumn : Dialect → Bool → Option (String × String)
  timestamp : Dialect → Option TimestampType
  /-- The module that provides the builders. -/
  moduleName : Dialect → Option String
  /-- The function that declares a table. -/
  tableFunction : Dialect → Option String

inductive MappingError
  | noColumn (type : FieldType) (dialect : Dialect)
  | noId (dialect : Dialect) (uuid : Bool)
  | noTimestamps (dialect : Dialect)
  | noModule (dialect : Dialect)
  | noTableFunction (dialect : Dialect)
  | incomplete (labels : List String)
  deriving Repr, DecidableEq

/-- How the choice of a UUID key is written in messages. -/
def uuidLabel (uuid : Bool) : String := if uuid then "(uuid=True)" else "(uuid=False)"

def MappingError.message : MappingError → String
  | .noColumn type dialect =>
    "No column mapping for type '" ++ type.name ++ "' under dialect '" ++ dialect.name ++ "'"
  | .noId dialect uuid => "No id column for dialect '" ++ dialect.name ++ "' " ++ uuidLabel uuid
  | .noTimestamps dialect => "No timestamp columns for dialect '" ++ dialect.name ++ "'"
  | .noModule dialect => "No module for dialect '" ++ dialect.name ++ "'"
  | .noTableFunction dialect => "No table function for dialect '" ++ dialect.name ++ "'"
  | .incomplete labels => "Unmapped column types: " ++ ", ".intercalate labels

namespace Mapping

def sqliteColumn : FieldType → ColumnType
  | .string | .text | .decimal | .uuid => { builder := "text" }
  | .integer | .reference => { builder := "integer" }
  | .bigint => { builder := "integer", options := .fixed "\x7b mode: \"number\" \x7d" }
  | .boolean => { builder := "integer", options := .fixed "\x7b mode: \"boolean\" \x7d" }
  | .float => { builder := "real" }
  | .datetime | .date => { builder := "integer", options := .fixed "\x7b mode: \"timestamp\" \x7d" }
  | .json => { builder := "text", options := .fixed "\x7b mode: \"json\" \x7d" }
  | .enum => { builder := "text", options := .enumObject }

def postgresqlColumn : FieldType → ColumnType
  | .string | .text => { builder := "text" }
  | .integer | .reference => { builder := "integer" }
  | .bigint => { builder := "bigint", options := .fixed "\x7b mode: \"number\" \x7d" }
  | .boolean => { builder := "boolean" }
  | .float => { builder := "doublePrecision" }
  | .decimal => { builder := "numeric", options := .fixed "\x7b precision: 10, scale: 2 \x7d" }
  | .datetime => { builder := "timestamp" }
  | .date => { builder := "date", options := .fixed "\x7b mode: \"date\" \x7d" }
  | .json => { builder := "jsonb" }
  | .uuid => { builder := "uuid" }
  | .enum => { builder := "pgEnum", nativeEnum := true }

def mysqlColumn : FieldType → ColumnType
  | .string => { builder := "varchar", options := .fixed "\x7b length: 255 \x7d" }
  | .text => { builder := "text" }
  | .integer | .reference => { builder := "int" }
  | .bigint => { builder := "bigint", options := .fixed "\x7b mode: \"number\" \x7d" }
  | .boolean => { builder := "boolean" }
  | .float => { builder := "double" }
  | .decimal => { builder := "decimal", options := .fixed "\x7b precision: 10, scale: 2 \x7d" }
  | .datetime => { builder := "datetime" }
  | .date => { builder := "date" }
  | .json => { builder := "json" }
  | .uuid => { builder := "varchar", options := .fixed "\x7b length: 36 \x7d" }
  | .enum => { builder := "mysqlEnum", options := .enumList }

def standardId : Dialect → Bool → String × String
  | .sqlite, false => ("integer", "integer(\"id\").primaryKey(\x7b autoIncrement: true \x7d)")
  | .sqlite, true =>
    ("text", "text(\"id\").primaryKey().$defaultFn(() => crypto.randomUUID())")
  | .postgresql, false => ("serial", "serial(\"id\").primaryKey()")
  | .postgresql, true => ("uuid", "uuid(\"id\").primaryKey().defaultRandom()")
  | .mysql, false => ("int", "int(\"id\").primaryKey().autoincrement()")
  | .mysql, true =>
    ("varchar",
      "varchar(\"id\", \x7b length: 36 \x7d).primaryKey().$defaultFn(() => crypto.randomUUID())")

def standardTimestamp : Dialect → TimestampType
  | .sqlite =>
    { builder := "integer", before := "integer(\""
      after := "\", \x7b mode: \"timestamp\" \x7d).notNull().$defaultFn(() => new Date())" }
  | .postgresql =>
    { builder := "timestamp", before := "timestamp(\"", after := "\").notNull().defaultNow()" }
  | .mysql =>
    { builder := "datetime", before := "datetime(\""
      after := "\").notNull().$defaultFn(() => new Date())" }

def standardModule : Dialect → String
  | .sqlite => "drizzle-orm/sqlite-core"
  | .postgresql => "drizzle-orm/pg-core"
  | .mysql => "drizzle-orm/mysql-core"

def standardTableFunction : Dialect → String
  | .sqlite => "sqliteTable"
  | .postgresql => "pgTable"
  | .mysql => "mysqlTable"

/-- The complete mapping. -/
def standard : Mapping where
  columnType type
    | .sqlite => some (sqliteColumn type)
    | .postgresql => some (postgresqlColumn type)
    | .mysql => some (mysqlColumn type)
  idColumn dialect uuid := some (standardId dialect uuid)
  timestamp dialect := some (standardTimestamp dialect)
  moduleName dialect := some (standardModule dialect)
  tableFunction dialect := some (standardTableFunction dialect)

/-- The gaps of one dialect: column types, then keys, timestamps, and the module entry. -/
def missingIn (m : Mapping) (dialect : Dialect) : List String :=
  let gap (isGap : Bool) (label : String) := if isGap then [label ++ "/" ++ dialect.name] else []
  FieldType.all.flatMap (fun type => gap (m.columnType type dialect).isNone type.name) ++
    [false, true].flatMap (fun uuid =>
      gap (m.idColumn dialect uuid).isNone ("id" ++ uuidLabel uuid)) ++
    gap (m.timestamp dialect).isNone "timestamps" ++
    gap ((m.moduleName dialect).isNone || (m.tableFunction dialect).isNone) "module"

/-- Every gap of a mapping, dialect by dialect. -/
def missing (m : Mapping) : List String := Dialect.all.flatMap m.missingIn

/-- Accepts a mapping without gaps. -/
def check (m : Mapping) : Except MappingError Unit :=
  if m.missing.isEmpty then .ok () else .error (.incomplete m.missing)

theorem missing_standard : standard.missing = [] := by decide

/-- Cells taken out of a mapping. -/
structure Gaps where
  columnTypes : List (FieldType × Dialect) := []
  idColumns : List (Dialect × Bool) := []
  timestamps : List Dialect := []
  modules : List Dialect := []
  tableFunctions : List Dialect := []

/-- The mapping without the named cells. -/
def erase (m : Mapping) (gaps : Gaps) : Mapping where
  columnType type dialect :=
    if gaps.columnTypes.contains (type, dialect) then none else m.columnType type dialect
  idColumn dialect uuid :=
    if gaps.idColumns.contains (dialect, uuid) then none else m.idColumn dialect uuid
  timestamp dialect := if gaps.timestamps.contains dialect then none else m.timestamp dialect
  moduleName dialect := if gaps.modules.contains dialect then none else m.moduleName dialect
  tableFunction dialect :=
    if gaps.tableFunctions.contains dialect then none else m.tableFunction dialect

end Mapping
end SchemaScaffold
