import SchemaScaffold.Column.Mapping
import SchemaScaffold.Naming.Inflection
import SchemaScaffold.Text.Quoted

/-!
Columns of a table: the expression that builds each one, and what that expression needs, namely
imports from the dialect's module and, for a native enum, a declaration beside the table.
-/

namespace SchemaScaffold

open Naming

structure Column where
  key : String
  expression : String
  imports : List String
  module : String
  declarations : List String := []
  deriving Repr, DecidableEq

namespace Column

/-- The column as a line of the table, without the comma. -/
def line (c : Column) : String := "  " ++ c.key ++ ": " ++ c.expression

end Column

/-- The values of an enum as a list literal. -/
def enumLiteral (values : List String) : String :=
  "[" ++ ", ".intercalate (values.map Text.jsonLiteral) ++ "]"

/-- The text of the second argument, if there is one. -/
def ColumnOptions.text? (options : ColumnOptions) (values : List String) : Option String :=
  match options with
  | .none => Option.none
  | .fixed text => some text
  | .enumObject => some ("\x7b enum: " ++ enumLiteral values ++ " \x7d")
  | .enumList => some (enumLiteral values)

namespace Mapping

def moduleOf (m : Mapping) (dialect : Dialect) : Except MappingError String :=
  match m.moduleName dialect with
  | some name => .ok name
  | none => .error (.noModule dialect)

/-- The name of a native enum type: it carries the table's name where there is a table. -/
def enumTypeName (table column : String) : String :=
  if table.isEmpty then column else table ++ "_" ++ column

/-- The foreign key of a reference. A callback into the table itself needs a type annotation, for
which it imports the dialect's general column type. -/
def foreignKey (dialect : Dialect) (table target : String) : String × List String :=
  let var := tableVariable target
  if !table.isEmpty && var == camelCase table then
    (".references((): " ++ dialect.anyColumnType ++ " => " ++ var ++ ".id)",
      [dialect.anyColumnType])
  else (".references(() => " ++ var ++ ".id)", [])

/-- The call that builds a field's column, and the declarations it rests on. -/
def builderCall (type : ColumnType) (field : Field) (table : String) : String × List String :=
  let column := snakeCase field.name
  let values := field.enumValues.getD []
  if type.nativeEnum then
    let enumName := enumTypeName table column
    let var := camelCase enumName ++ "Enum"
    (var ++ "(\"" ++ column ++ "\")",
      ["export const " ++ var ++ " = " ++ type.builder ++ "(\"" ++ enumName ++ "\", " ++
        enumLiteral values ++ ");"])
  else
    let options :=
      match type.options.text? values with
      | some options => ", " ++ options
      | none => ""
    (type.builder ++ "(\"" ++ column ++ "\"" ++ options ++ ")", [])

/-- The column of a field under a dialect. `table` names native enum types and marks references of
a table to itself; it may be empty. -/
def column (m : Mapping) (field : Field) (dialect : Dialect) (table : String) :
    Except MappingError Column := do
  let some type := m.columnType field.type dialect | .error (.noColumn field.type dialect)
  let (call, declarations) := builderCall type field table
  let notNull := if field.nullable then "" else ".notNull()"
  let unique := if field.unique then ".unique()" else ""
  let (reference, annotation) :=
    if field.isReference then foreignKey dialect table (field.target.getD "") else ("", [])
  return {
    key := field.name
    expression := call ++ notNull ++ unique ++ reference
    imports := type.builder :: annotation
    module := ← m.moduleOf dialect
    declarations }

/-- The primary key: a generated number, or a generated UUID. -/
def primaryKey (m : Mapping) (dialect : Dialect) (uuid : Bool) : Except MappingError Column := do
  let some (builder, expression) := m.idColumn dialect uuid | .error (.noId dialect uuid)
  return { key := "id", expression, imports := [builder], module := ← m.moduleOf dialect }

/-- The generated timestamp fields. -/
def timestampFields : List String := ["createdAt", "updatedAt"]

/-- The timestamp columns, which default to the time of insertion. -/
def timestampColumns (m : Mapping) (dialect : Dialect) : Except MappingError (List Column) := do
  let some type := m.timestamp dialect | .error (.noTimestamps dialect)
  let module ← m.moduleOf dialect
  return timestampFields.map fun key =>
    { key, expression := type.before ++ snakeCase key ++ type.after
      imports := [type.builder], module }

end Mapping
end SchemaScaffold
