import SchemaScaffold.Field.Basic
import SchemaScaffold.Naming.Model
import SchemaScaffold.Project.Layout
import SchemaScaffold.Table
import SchemaScaffold.Text.Lines

/-!
What the generated modules of a model have in common: its names, how it imports the database client
and the schema, and the shape of its table.
-/

namespace SchemaScaffold.Generated

open Naming

structure Model where
  names : ModelNames
  dbImport : String
  schemaImport : String
  options : TableOptions
  /-- Whether the dialect gives written rows back, so that they need not be read again. -/
  returning : Bool
  deriving Repr, DecidableEq

namespace Model

def of (project : Project) (names : ModelNames) (options : TableOptions) : Model where
  names
  dbImport := project.layout.dbImport
  schemaImport := project.layout.schemaImport
  options
  returning := project.dialect != .mysql

/-- The variable of the table. -/
def table (m : Model) : String := m.names.camelPlural

def idType (m : Model) : String := if m.options.uuid then "string" else "number"

/-- The column that lists are ordered by. -/
def orderColumn (m : Model) : String := if m.options.timestamps then "createdAt" else "id"

/-- The columns to set from `data`; an update moves the time of the last change. -/
def updateFrom (m : Model) (data : String) : String :=
  if m.options.timestamps then s!"\x7b ...{data}, updatedAt: new Date() \x7d" else data

/-- The variable of a single record, which must not be that of the table. -/
def record (m : Model) : String :=
  if m.names.camelName != m.names.camelPlural then m.names.camelName else "record"

/-- The identifier of a record, from the text in the route. -/
def idExpression (m : Model) : String := if m.options.uuid then "id" else "Number(id)"

end Model

/-- The kinds of generated module. -/
inductive Template
  | actions
  | indexPage
  | newPage
  | showPage
  | editPage
  | collectionRoute
  | memberRoute
  deriving Repr, DecidableEq

/-- A module to write: where it goes, what it is, and its text. -/
structure Module where
  path : Path
  template : Template
  content : String
  deriving Repr, DecidableEq

end SchemaScaffold.Generated
