import SchemaScaffold.Command.Setup

/-!
Choosing a setup: by name, if both the dialect and the driver are given, and by questions if neither
is. The questions come in a fixed order, and some depend on the answers before them.
-/

namespace SchemaScaffold

open Setup

/-- What a setup is asked to be; an empty name counts as none. -/
structure SetupRequest where
  dialect : String := ""
  driver : String := ""
  install : Bool := true
  force : Bool := false
  dryRun : Bool := false
  deriving Repr, DecidableEq

namespace Setup

/-- The dialects as the wizard introduces them. -/
def dialectLabel : Dialect → String
  | .sqlite => "SQLite - lightweight, file-based database"
  | .postgresql => "PostgreSQL - advanced, robust database"
  | .mysql => "MySQL - popular, widely-supported database"

end Setup

namespace Command

/-- Asks for the dialect. -/
def askDialect : Command Dialect := do
  Dialect.all.forM fun d => say ("  " ++ d.name ++ "  " ++ dialectLabel d)
  choose "Select your database dialect" Dialect.name Dialect.all .sqlite

/-- Asks for one of the drivers of a dialect. -/
def askDriver (dialect : Dialect) : Command Driver := do
  let drivers := Driver.ofDialect dialect
  drivers.forM fun d => say ("  " ++ Console.escape d.key ++ "  " ++ d.label ++ " - " ++ d.hint)
  choose "Select your database driver" Driver.key drivers (.standard dialect)

/-- The directory where the database files of a project lie. -/
def databaseFolder (root : Path) : Command String := do
  return (← lift .detection (Detection.layout (← get).tree root)).dbFolder

/-- Asks whether to go on in a project that is no Next.js project. -/
def askWhetherNext (root : Path) : Command Bool := do
  if ← isNextProject root then return true
  say ("Warning: This doesn't appear to be a Next.js project. " ++
    "Brizzle is optimized for Next.js.")
  if ← agree "Continue anyway?" true then return true
  say "Setup cancelled."
  return false

/-- Asks for a whole setup. Gives nothing if it is called off. -/
def askSetup (root : Path) : Command (Option Setup.Options) := do
  say "\nWelcome to Brizzle - Drizzle ORM Setup Wizard\n"
  if !(← askWhetherNext root) then return none
  let dialect ← askDialect
  let driver ← askDriver dialect
  let dbPath ← askDirectory "Where should database files be located?" (← databaseFolder root)
  let writeEnv ← agree "Create/update .env.example with database connection template?" true
  let writeCompose ←
    if dialect != .sqlite then agree "Generate docker-compose.yml for local database?" false
    else pure false
  let install ← agree "Install dependencies now?" true
  return some { dialect, driver, dbPath, writeEnv, writeCompose, install }

/-- The setup of a dialect and a driver that are given by name. -/
def namedSetup (root : Path) (request : SetupRequest) : Command Setup.Options := do
  let dialect ← lift .choice (chooseDialect request.dialect)
  let driver ← lift .choice (chooseDriver request.driver dialect)
  return {
    dialect, driver, dbPath := ← databaseFolder root, install := request.install
    force := request.force, dryRun := request.dryRun }

/-- Sets the project at a directory up as requested. Gives the names of the files that were
written, or would have been. -/
def init (root : Path) (request : SetupRequest) : Command (List String) := do
  if !request.dialect.isEmpty && !request.driver.isEmpty then
    setUp root (← namedSetup root request)
  else if !request.dialect.isEmpty || !request.driver.isEmpty then
    throw (.choice .half)
  else
    match ← askSetup root with
    | none => return []
    | some options =>
      setUp root { options with
        force := request.force, dryRun := request.dryRun
        install := options.install && request.install }

end Command
end SchemaScaffold
