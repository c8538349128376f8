import SchemaScaffold.Command.Generate
import SchemaScaffold.Proofs.Outcome
import SchemaScaffold.Proofs.Session.Runs

/-!
The commands that generate code, as one. Each checks its request, adds the table of the model if it
has one to add, and writes its modules; what it announces before and after does not touch the files.
-/

namespace SchemaScaffold

open Naming Generated Generate

/-- A command that generates code, with the field definitions it was given. -/
inductive Generation
  | model (definitions : List String)
  | actions
  | pages (definitions : List String)
  | routes
  | resource (definitions : List String)
  | scaffold (definitions : List String)
  | api (definitions : List String)
  deriving Repr, DecidableEq

namespace Generation

/-- What the command does for a model of a name. -/
def run (project : Project) (options : Options) (name : String) : Generation → Command Outcome
  | .model definitions => Command.model project options name definitions
  | .actions => Command.actions project options name
  | .pages definitions => Command.pages project options name definitions
  | .routes => Command.routes project options name
  | .resource definitions => Command.resource project options name definitions
  | .scaffold definitions => Command.scaffold project options name definitions
  | .api definitions => Command.api project options name definitions

def definitions : Generation → List String
  | .model definitions | .pages definitions | .resource definitions | .scaffold definitions
  | .api definitions => definitions
  | .actions | .routes => []

/-- Whether the command adds the table of the model to the schema file. -/
def addsTable : Generation → Bool
  | .model _ | .resource _ | .scaffold _ | .api _ => true
  | .actions | .pages _ | .routes => false

/-- The modules that the command writes, in their order. -/
def modules (project : Project) (names : ModelNames) (traits : TableOptions) (fields : List Field) :
    Generation → List Module
  | .model _ => []
  | .actions | .resource _ => actionModules project names traits
  | .pages _ => pageModules project names traits fields
  | .routes | .api _ => routeModules project names traits
  | .scaffold _ => actionModules project names traits ++ pageModules project names traits fields

/-- The directory that the modules of the command go to. -/
def directory (project : Project) (names : ModelNames) : Generation → Path
  | .routes | .api _ => apiDir project names
  | .model _ | .actions | .pages _ | .resource _ | .scaffold _ => pagesDir project names

/-- Where the modules of the command stand in their directory. -/
def places : Generation → List Path
  | .model _ => []
  | .actions | .resource _ => [["actions.ts"]]
  | .pages _ => [["page.tsx"], ["new", "page.tsx"], ["[id]", "page.tsx"], ["[id]", "edit", "page.tsx"]]
  | .routes | .api _ => [["route.ts"], ["[id]", "route.ts"]]
  | .scaffold _ => [["actions.ts"], ["page.tsx"], ["new", "page.tsx"], ["[id]", "page.tsx"],
      ["[id]", "edit", "page.tsx"]]

theorem modules_paths (project : Project) (names : ModelNames) (traits : TableOptions)
    (fields : List Field) (g : Generation) : (g.modules project names traits fields).map (·.path) =
      g.places.map (g.directory project names ++ ·) := by
  cases g <;> rfl

theorem mem_modules {project : Project} {names : ModelNames} {traits : TableOptions}
    {fields : List Field} {g : Generation} {m : Module} (h : m ∈ g.modules project names traits fields) :
    ∃ place ∈ g.places, g.directory project names ++ place = m.path := by
  have hmem : m.path ∈ (g.modules project names traits fields).map (·.path) := List.mem_map_of_mem h
  rw [modules_paths] at hmem
  exact List.mem_map.mp hmem

/-- What the command takes the shape of the table to be: actions alone look it up. -/
def traits (project : Project) (options : Options) (names : ModelNames) :
    Generation → Command TableOptions
  | .actions => Command.tableTraits project options names
  | _ => pure options.toTableOptions

/-- What the command says first. -/
def opening (options : WriteOptions) (names : ModelNames) : Generation → Command Unit
  | .resource _ => Command.say
    ("\n" ++ mark options ++ "Generating resource " ++ names.pascalName ++ "...\n")
  | .scaffold _ => Command.say ("\n" ++ mark options ++ "Scaffolding " ++ names.pascalName ++ "...\n")
  | .api _ => Command.say ("\n" ++ mark options ++ "Generating API " ++ names.pascalName ++ "...\n")
  | _ => pure ()

/-- What the command says last. -/
def closing (project : Project) (names : ModelNames) : Generation → Command Unit
  | .resource _ => Command.sayNextSteps [Command.pushStep project,
      "Create pages in " ++ project.layout.appFolder ++ "/" ++ names.kebabPlural ++ "/"]
  | .scaffold _ => Command.sayNextSteps [Command.pushStep project,
      "Run '" ++ project.manager.runCommand ++ " dev' and visit /" ++ names.kebabPlural]
  | .api _ => Command.sayNextSteps [Command.pushStep project,
      "API available at /api/" ++ names.kebabPlural]
  | _ => pure ()

/-- Puts a merged schema into its file, unless the table was there. -/
def putTable (project : Project) (options : WriteOptions) (names : ModelNames)
    (merge : Schema.Merge) : Command Unit :=
  if merge.changed then Command.updateFile options project.schemaPath merge.content
  else do
    Command.report .skip project.schemaPath
    Command.say ("Model " ++ names.pascalName ++ " already exists in the schema. " ++
      "Use --force to regenerate it.")

/-- What adding a table comes to. -/
def tableOutcome (project : Project) (merge : Schema.Merge) : Outcome where
  files := [{ path := project.schemaPath, written := merge.changed }]
  merge := some merge

/-- Reads the schema file and merges the table of a model into its text. -/
def mergeTable (project : Project) (options : Options) (names : ModelNames) (fields : List Field) :
    Command Schema.Merge := do
  let table ← Command.lift .table
    (Mapping.standard.table names fields project.dialect options.toTableOptions)
  let existing ← Command.readText? project.schemaPath
  Command.lift (.schema (some project.schemaPath)) (Schema.merge existing table options.force)

/-- Adding a table reads before it writes. -/
theorem mergeModel_eq (project : Project) (options : Options) (names : ModelNames)
    (fields : List Field) : Command.mergeModel project options names fields = (do
      let merge ← mergeTable project options names fields
      putTable project options.toWriteOptions names merge
      return tableOutcome project merge) := by
  simp only [Command.mergeModel, mergeTable, putTable, tableOutcome, bind_assoc]
  refine bind_congr fun table => bind_congr fun existing => bind_congr fun merge => ?_
  split
  · rfl
  · rw [bind_assoc]

/-- What the command reads: the merged schema, if it adds a table, and the shape of the table. -/
def read (project : Project) (options : Options) (names : ModelNames) (fields : List Field)
    (g : Generation) : Command (Option Schema.Merge × TableOptions) :=
  if g.addsTable then do
    let merge ← mergeTable project options names fields
    return (some merge, options.toTableOptions)
  else do
    let traits ← g.traits project options names
    return (none, traits)

/-- What the command writes once it has read everything: the table, and then the modules. -/
def write (project : Project) (options : WriteOptions) (names : ModelNames) (fields : List Field)
    (merge : Option Schema.Merge) (traits : TableOptions) (g : Generation) : Command Outcome := do
  merge.toList.forM (putTable project options names)
  let modules ← Command.writeModules options (g.modules project names traits fields)
  g.closing project names
  return (merge.elim { files := [] } (tableOutcome project)).append modules

theorem nil_append : Outcome.append { files := [] } = id := by
  funext o
  cases o with
  | mk files merge => cases merge <;> rfl

theorem append_nil (o : Outcome) : o.append { files := [] } = o := by
  simp [Outcome.append]

theorem append_assoc (o p q : Outcome) : (o.append p).append q = o.append (p.append q) := by
  cases hq : q.merge <;> simp [Outcome.append, hq]

theorem writeModules_nil (options : WriteOptions) :
    Command.writeModules options [] = pure { files := [] } := rfl

theorem writeModules_append (options : WriteOptions) (ms ns : List Module) :
    Command.writeModules options (ms ++ ns) = (do
      let a ← Command.writeModules options ms
      let b ← Command.writeModules options ns
      return a.append b) := by
  simp [Command.writeModules, Outcome.append, List.mapM_append]

/-- Every command that generates code checks its request, reads, and then writes. -/
theorem run_eq (project : Project) (options : Options) (name : String) (g : Generation) :
    g.run project options name = (do
      let (names, fields) ← Command.prepare options name g.definitions
      g.opening options.toWriteOptions names
      let (merge, traits) ← g.read project options names fields
      g.write project options.toWriteOptions names fields merge traits) := by
  cases g <;>
    simp [run, definitions, read, write, addsTable, modules, traits, opening, closing, nil_append,
      append_nil, append_assoc, mergeModel_eq, writeModules_nil, writeModules_append,
      Command.model, Command.actions, Command.pages, Command.routes, Command.resource,
      Command.scaffold, Command.api]

theorem prepare_ok {options : Options} {name : String} {definitions : List String}
    {names : ModelNames} {fields : List Field}
    (h : Generate.prepare options name definitions = .ok (names, fields)) :
    validateModelName name = .ok () ∧ Field.parseAll definitions = .ok fields ∧
      names = ModelNames.of name := by
  obtain ⟨_, hname, h⟩ := bind_ok h
  obtain ⟨_, hfields, h⟩ := bind_ok h
  obtain ⟨_, -, h⟩ := bind_ok h
  cases h
  exact ⟨mapError_ok hname, mapError_ok hfields, rfl⟩

/-- A command that succeeds was given a name it accepts. -/
theorem accepted_of_run {project : Project} {options : Options} {name : String}
    {g : Generation} {o : Outcome} {s t : Session}
    (h : g.run project options name s = .ok o t) : validateModelName name = .ok () := by
  rw [run_eq] at h
  obtain ⟨_, _, hprepare, -⟩ := Command.returns_bind h
  exact (prepare_ok (Command.returns_lift hprepare).1).1

end Generation
end SchemaScaffold
