import SchemaScaffold.Generated.Modules
import SchemaScaffold.Session.Files

/-!
Generating code for a model: its table in the schema file, its server actions, its pages and its API
routes. A command checks its whole input before it looks at a file, and merges the schema in memory
before it writes one.
-/

namespace SchemaScaffold

open Naming Generated

namespace Generate

/-- What to generate, and how to write it. -/
structure Options extends WriteOptions, TableOptions where
  deriving Repr, DecidableEq

/-- A file that a command dealt with; the schema file comes from no template. -/
structure File where
  path : Path
  template : Option Template := none
  written : Bool := true
  deriving Repr, DecidableEq

/-- What a command did, or would have done but for a dry run. -/
structure Outcome where
  files : List File
  merge : Option Schema.Merge := none
  deriving Repr, DecidableEq

namespace Outcome

def written (o : Outcome) : List Path := (o.files.filter (·.written)).map (·.path)

def skipped (o : Outcome) : List Path := (o.files.filter (!·.written)).map (·.path)

/-- First the one, then the other. -/
def append (o p : Outcome) : Outcome where
  files := o.files ++ p.files
  merge := if p.merge.isSome then p.merge else o.merge

end Outcome

/-- The names and fields of a request, all of it checked. -/
def prepare (options : Options) (name : String) (definitions : List String) :
    Except Failure (ModelNames × List Field) := do
  (validateModelName name).mapError .name
  let fields ← (Field.parseAll definitions).mapError .field
  (checkColumnNames fields options.timestamps).mapError fun e => .table (.clash e)
  return (.of name, fields)

/-- What a dry run puts before its announcements. -/
def mark (options : WriteOptions) : String :=
  if options.dryRun then Console.escape "[dry-run] " else ""

/-- What the block of a table tells about how the table was generated. -/
def traitsOf (block : String) : TableOptions where
  uuid := Text.occursIn "randomUUID" block || Text.occursIn "defaultRandom" block
  timestamps := Text.occursIn "createdAt:" block

end Generate

namespace Command

open Generate

def prepare (options : Options) (name : String) (definitions : List String) :
    Command (ModelNames × List Field) :=
  lift id (Generate.prepare options name definitions)

/-- Announces the commands to run next. -/
def sayNextSteps (steps : List String) : Command Unit := do
  say "\nNext steps:"
  (steps.zipIdx 1).forM fun (step, i) => say (s!"  {i}. " ++ Console.escape step)

/-- Writes modules, one after the other. -/
def writeModules (options : WriteOptions) (modules : List Module) : Command Outcome := do
  let files ← modules.mapM fun m => do
    let written ← writeFile options m.path m.content
    return { path := m.path, template := some m.template, written }
  return { files }

/-- Merges the table of a model into the schema file. -/
def mergeModel (project : Project) (options : Options) (names : ModelNames)
    (fields : List Field) : Command Outcome := do
  let table ← lift .table
    (Mapping.standard.table names fields project.dialect options.toTableOptions)
  let path := project.schemaPath
  let existing ← readText? path
  let merge ← lift (.schema (some path)) (Schema.merge existing table options.force)
  if merge.changed then
    updateFile options.toWriteOptions path merge.content
  else
    report .skip path
    say ("Model " ++ names.pascalName ++ " already exists in the schema. " ++
      "Use --force to regenerate it.")
  return { files := [{ path, written := merge.changed }], merge := some merge }

/-- How the table of a model was generated, as far as the schema file tells. -/
def tableTraits (project : Project) (options : Options) (names : ModelNames) :
    Command TableOptions := do
  match ← readText? project.schemaPath with
  | none => return options.toTableOptions
  | some source =>
    match ← lift (.schema none) (Schema.tableBlock? source names.tableName) with
    | some block => return traitsOf block
    | none => return options.toTableOptions

/-- Adds the table of a model to the schema file. -/
def model (project : Project) (options : Options) (name : String) (definitions : List String) :
    Command Outcome := do
  let (names, fields) ← prepare options name definitions
  mergeModel project options names fields

/-- Writes the server actions of a model that has a table. -/
def actions (project : Project) (options : Options) (name : String) : Command Outcome := do
  let (names, _) ← prepare options name []
  let traits ← tableTraits project options names
  writeModules options.toWriteOptions (actionModules project names traits)

/-- Writes the pages of a model. -/
def pages (project : Project) (options : Options) (name : String) (definitions : List String) :
    Command Outcome := do
  let (names, fields) ← prepare options name definitions
  writeModules options.toWriteOptions (pageModules project names options.toTableOptions fields)

/-- Writes the API routes of a model. -/
def routes (project : Project) (options : Options) (name : String) : Command Outcome := do
  let (names, _) ← prepare options name []
  writeModules options.toWriteOptions (routeModules project names options.toTableOptions)

def pushStep (project : Project) : String :=
  "Run '" ++ project.manager.runCommand ++ " db:push' to update the database"

/-- The table and the server actions of a model. -/
def resource (project : Project) (options : Options) (name : String) (definitions : List String) :
    Command Outcome := do
  let (names, fields) ← prepare options name definitions
  say ("\n" ++ mark options.toWriteOptions ++ "Generating resource " ++ names.pascalName ++ "...\n")
  let schema ← mergeModel project options names fields
  let actions ← writeModules options.toWriteOptions
    (actionModules project names options.toTableOptions)
  sayNextSteps [pushStep project,
    "Create pages in " ++ project.layout.appFolder ++ "/" ++ names.kebabPlural ++ "/"]
  return schema.append actions

/-- The table, the server actions and the pages of a model. -/
def scaffold (project : Project) (options : Options) (name : String) (definitions : List String) :
    Command Outcome := do
  let (names, fields) ← prepare options name definitions
  say ("\n" ++ mark options.toWriteOptions ++ "Scaffolding " ++ names.pascalName ++ "...\n")
  let schema ← mergeModel project options names fields
  let actions ← writeModules options.toWriteOptions
    (actionModules project names options.toTableOptions)
  let pages ← writeModules options.toWriteOptions
    (pageModules project names options.toTableOptions fields)
  sayNextSteps [pushStep project,
    "Run '" ++ project.manager.runCommand ++ " dev' and visit /" ++ names.kebabPlural]
  return (schema.append actions).append pages

/-- The table and the API routes of a model. -/
def api (project : Project) (options : Options) (name : String) (definitions : List String) :
    Command Outcome := do
  let (names, fields) ← prepare options name definitions
  say ("\n" ++ mark options.toWriteOptions ++ "Generating API " ++ names.pascalName ++ "...\n")
  let schema ← mergeModel project options names fields
  let routes ← writeModules options.toWriteOptions
    (routeModules project names options.toTableOptions)
  sayNextSteps [pushStep project, "API available at /api/" ++ names.kebabPlural]
  return schema.append routes

end Command
end SchemaScaffold
