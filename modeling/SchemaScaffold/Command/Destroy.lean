import SchemaScaffold.Command.Generate
import SchemaScaffold.Session.Question

/-! Removing the generated modules of a model. The schema file stays as it is. -/

namespace SchemaScaffold

open Naming Generated

/-- What can be destroyed. -/
inductive DestroyKind
  | scaffold | resource | api
  deriving Repr, DecidableEq

namespace DestroyKind

def all : List DestroyKind := [.scaffold, .resource, .api]

def name : DestroyKind → String
  | .scaffold => "scaffold"
  | .resource => "resource"
  | .api => "api"

def ofName? (s : String) : Option DestroyKind := all.find? (·.name == s)

/-- What the announcement calls it. -/
def label : DestroyKind → String
  | .api => "API"
  | kind => kind.name

/-- The directory that holds the generated modules of the kind. -/
def directory (kind : DestroyKind) (project : Project) (names : ModelNames) : Path :=
  match kind with
  | .api => apiDir project names
  | .scaffold | .resource => pagesDir project names

end DestroyKind

/-- A checked request to destroy: the kind, and the names of the model. -/
def prepareDestroy (kind name : String) : Except Failure (DestroyKind × ModelNames) := do
  let some kind := DestroyKind.ofName? kind | .error (.kind kind)
  (validateModelName name).mapError .name
  return (kind, .of name)

namespace Command

open Generate

/-- Removes the directory of a kind of generated code. Tells whether it was there. -/
def destroyPrepared (project : Project) (options : WriteOptions) (kind : DestroyKind)
    (names : ModelNames) : Command Bool := do
  say ("\n" ++ mark options ++ "Destroying " ++ kind.label ++ " " ++ names.pascalName ++ "...\n")
  let removed ← deleteDirectory options (kind.directory project names)
  say ("\nNote: Schema in " ++ Console.escape project.layout.dbFolder ++ "/" ++
    Project.schemaFile ++ " was not modified.")
  say "      Remove the table definition manually if needed."
  return removed

def destroy (project : Project) (options : WriteOptions) (kind name : String) : Command Bool := do
  let (kind, names) ← lift id (prepareDestroy kind name)
  destroyPrepared project options kind names

/-- Whether a directory may be removed. It takes consent, unless the options say otherwise or there
is nothing to remove. -/
def mayRemove (options : WriteOptions) (path : Path) : Command Bool := do
  if options.force || options.dryRun then return true
  else if ← exists? path then confirm ("Remove " ++ Path.below (← get).base path ++ "?")
  else return true

/-- Destroys after asking. -/
def destroyConfirmed (project : Project) (options : WriteOptions) (kind name : String) :
    Command Unit := do
  let (kind, names) ← lift id (prepareDestroy kind name)
  let path := kind.directory project names
  if ← mayRemove options path then
    let _ ← destroyPrepared project options kind names
  else
    say "Aborted."

end Command
end SchemaScaffold
