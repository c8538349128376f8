import SchemaScaffold.Column.Basic
import SchemaScaffold.Naming.Model
import SchemaScaffold.Source.Imports

/-!
Table definitions: the columns of a model under a dialect, the imports they need, and the text of
the block that declares the table.
-/

namespace SchemaScaffold

open Naming

structure Table where
  name : String
  exportName : String
  module : String
  function : String
  columns : List Column
  deriving Repr, DecidableEq

namespace Table

/-- The table function first, then what the columns need, in column order. -/
def requiredImports (t : Table) : Imports :=
  t.columns.foldl (fun imports c => imports.add c.module c.imports) [(t.module, [t.function])]

def declarations (t : Table) : List String := t.columns.flatMap (·.declarations)

/-- The statement that declares the table. -/
def renderBlock (t : Table) : String :=
  "export const " ++ t.exportName ++ " = " ++ t.function ++ "(\"" ++ t.name ++ "\", \x7b\n" ++
    ",\n".intercalate (t.columns.map Column.line) ++ ",\n\x7d);"

/-- The native enum declarations, if any, and the table block. -/
def render (t : Table) : String :=
  if t.declarations.isEmpty then t.renderBlock
  else "\n".intercalate t.declarations ++ "\n\n" ++ t.renderBlock

end Table

/-- A field that would take the place of a generated column. -/
inductive ColumnClash
  | id
  | timestamp (name : String)
  deriving Repr, DecidableEq

def ColumnClash.message : ColumnClash → String
  | .id =>
    "Field name \"id\" is reserved: every table gets a generated id column " ++
      "(use --uuid for a UUID primary key)."
  | .timestamp name =>
    "Field name \"" ++ name ++ "\" is reserved: timestamps are generated " ++
      "(use --no-timestamps to define it yourself)."

def Field.clash? (timestamps : Bool) (f : Field) : Option ColumnClash :=
  if f.name == "id" then some .id
  else if timestamps && Mapping.timestampFields.contains f.name then some (.timestamp f.name)
  else none

/-- Refuses the first field that clashes with a generated column. -/
def checkColumnNames (fields : List Field) (timestamps : Bool) : Except ColumnClash Unit :=
  match fields.findSome? (Field.clash? timestamps) with
  | some clash => .error clash
  | none => .ok ()

/-- Why a table cannot be built. -/
inductive TableError
  | clash (e : ColumnClash)
  | mapping (e : MappingError)
  deriving Repr, DecidableEq

def TableError.message : TableError → String
  | .clash e => e.message
  | .mapping e => e.message

/-- What is generated beside the fields. -/
structure TableOptions where
  uuid : Bool := false
  timestamps : Bool := true
  deriving Repr, DecidableEq

namespace Mapping

/-- The generated and the field columns of a model, in order. -/
def columns (m : Mapping) (names : ModelNames) (fields : List Field) (dialect : Dialect)
    (options : TableOptions) : Except MappingError (List Column) := do
  let key ← m.primaryKey dialect options.uuid
  let own ← fields.mapM fun f => m.column f dialect names.tableName
  let stamps ← if options.timestamps then m.timestampColumns dialect else pure []
  return key :: own ++ stamps

/-- The table of a model. -/
def table (m : Mapping) (names : ModelNames) (fields : List Field) (dialect : Dialect)
    (options : TableOptions) : Except TableError Table := do
  (checkColumnNames fields options.timestamps).mapError .clash
  let columns ← (m.columns names fields dialect options).mapError .mapping
  let module ← (m.moduleOf dialect).mapError .mapping
  let some function := m.tableFunction dialect | .error (.mapping (.noTableFunction dialect))
  return { name := names.tableName, exportName := names.camelPlural, module, function, columns }

end Mapping
end SchemaScaffold
