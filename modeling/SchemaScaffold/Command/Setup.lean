import SchemaScaffold.Command.Generate
import SchemaScaffold.Console.Box
import SchemaScaffold.Session.Question
import SchemaScaffold.Setup.Content
import SchemaScaffold.Setup.PackageFile

/-!
Setting a project up: its files are written, a file that is there only after asking, the scripts are
added to the package file, and the packages are installed. When nothing was written, nothing else
happens either.
-/

namespace SchemaScaffold

open Setup

namespace Setup

def envExampleFile : String := ".env.example"

/-- The environment file with its additions after what it held before. -/
def mergeEnv (existing content : String) : String :=
  String.ofList (Text.trimEnd existing.toList) ++ "\n\n" ++ content

/-- The files of a setup beside the environment file: those written before it, and those after. -/
def filesBefore (options : Options) : List (String × String) := [
  (Project.configFile, configFile options),
  (options.dbPath ++ "/index.ts", clientFile options.driver),
  (options.dbPath ++ "/" ++ Project.schemaFile, emptySchema options.dialect)]

def filesAfter (options : Options) : List (String × String) :=
  if options.writeCompose then
    (composeFile? options.dialect).toList.map fun content => ("docker-compose.yml", content)
  else []

/-- What is left to do after a setup. -/
def nextSteps (options : Options) (manager : PackageManager) : List String :=
  let run := manager.runCommand
  (if options.writeCompose then ["Start your database: docker compose up -d"] else []) ++
    (if options.writeEnv then ["Copy environment file: cp .env.example .env"] else []) ++
    ["Set " ++ options.driver.envVar ++ " in your .env file",
      "Scaffold your first CRUD:\n   npx brizzle scaffold post title:string body:text",
      "Generate and run migrations:\n   " ++ run ++ " db:generate\n   " ++ run ++ " db:migrate"]

end Setup

namespace Command

/-- What the package file holds, or nothing if it is malformed. -/
def readPackage? (root : Path) : Command (Option Json.Value) := do
  match Json.parse (← readText (root ++ [packageFile])) with
  | .ok v => return some v
  | .error .malformed => return none
  | .error .integerTooLong => throw (.detection .integerTooLong)
  | .error .nestedTooDeeply => throw (.detection .nestedTooDeeply)

/-- The files whose presence marks a Next.js project. -/
def nextConfigFiles : List String := ["next.config.js", "next.config.mjs", "next.config.ts"]

/-- Whether the project at a directory is a Next.js project. -/
def isNextProject (root : Path) : Command Bool := do
  let tree := (← get).tree
  if nextConfigFiles.any fun file => tree.exists? (root ++ [file]) then return true
  else if !tree.exists? (root ++ [packageFile]) then return false
  else
    match ← readPackage? root with
    | none => return false
    | some v => lift (fun e => .detection (.shape e)) (do dependsOnNext (← v.entries))

/-- Adds the scripts to the package file, which is written back only if some were missing. Gives
their number. -/
def addScripts (root : Path) : Command Nat := do
  let path := root ++ [packageFile]
  if !(← exists? path) then
    say ("Warning: " ++ packageFile ++ " not found, skipping script addition")
    return 0
  match ← readPackage? root with
  | none =>
    say ("Warning: Failed to add scripts to " ++ packageFile)
    return 0
  | some v =>
    let (package, added) ←
      lift (fun e => .detection (.shape e)) (do Setup.addScripts (← v.entries))
    if added != 0 then
      store path (Json.render (.record package) ++ "\n")
      say s!"Added {added} script(s) to package.json"
    return added

/-- Starts an external command. Tells whether it succeeded. -/
def start (root : Path) (command : List String) : Command Bool := do
  modify fun session => { session with started := session.started ++ [(root, command)] }
  return (← get).succeeds

/-- Starts the commands that install the packages of a driver, up to the first that fails. -/
def installUpTo (root : Path) : List (List String) → Command Bool
  | [] => return true
  | command :: commands => do
    say ("Installing: " ++ Console.escape (" ".intercalate command))
    if ← start root command then installUpTo root commands else return false

/-- Installs the packages of a driver. Tells whether that succeeded. -/
def install (root : Path) (driver : Driver) (manager : PackageManager) : Command Bool := do
  let commands := installCommands driver manager
  let installed ← installUpTo root commands
  if !installed then
    say ("Failed to install dependencies. Please run manually:\n" ++
      Console.escape ("\n".intercalate
        (commands.map fun command => "  " ++ " ".intercalate command)))
  return installed

/-- Whether a file of a setup may be written; a file that is there needs consent. -/
def mayWrite (options : Setup.Options) (path : Path) : Command Bool := do
  if !(← exists? path) || options.force || options.dryRun then return true
  else if ← confirm (path.name ++ " already exists. Overwrite?") then return true
  else
    report .skip path
    return false

/-- How a setup writes its files, once that is decided. -/
def setupWrites (options : Setup.Options) : WriteOptions :=
  { force := true, dryRun := options.dryRun }

/-- Writes a file of a setup if it may. Gives its name if it was written. -/
def writeSetupFile (root : Path) (options : Setup.Options) (file content : String) :
    Command (List String) := do
  let path := root ++ Path.parse file
  if ← mayWrite options path then
    if ← writeFile (setupWrites options) path content then return [file]
  return []

/-- Writes the environment file. What it held before is kept, and nothing is added if it mentions
the variable already. -/
def writeEnvFile (root : Path) (options : Setup.Options) : Command (List String) := do
  let path := root ++ [envExampleFile]
  let content := envFile options
  if (← exists? path) && !options.force then
    let existing ← readText path
    if Text.occursIn options.driver.envVar existing then
      report .skip path
    else if ← writeFile (setupWrites options) path (mergeEnv existing content) then
      return [envExampleFile ++ " (updated)"]
    return []
  else writeSetupFile root options envExampleFile content

/-- Writes files of a setup, one after the other. -/
def writeSetupFiles (root : Path) (options : Setup.Options) (files : List (String × String)) :
    Command (List String) := do
  return (← files.mapM fun (file, content) => writeSetupFile root options file content).flatten

/-- Writes the files of a setup. Gives the names of those that were written. -/
def createFiles (root : Path) (options : Setup.Options) : Command (List String) := do
  let before ← writeSetupFiles root options (filesBefore options)
  let env ← if options.writeEnv then writeEnvFile root options else pure []
  let after ← writeSetupFiles root options (filesAfter options)
  return before ++ env ++ after

/-- Draws a panel as wide as the console. -/
def sayPanel (title body : String) : Command Unit := do
  print (Console.panel (← get).width title body)

/-- Sums a setup up. -/
def saySummary (options : Setup.Options) (manager : PackageManager) (created : List String)
    (installed : Bool) : Command Unit := do
  sayPanel "Files created" ("\n".intercalate (created.map ("  " ++ Console.escape ·)))
  if !installed then
    sayPanel "Install dependencies"
      (Console.escape ("\n".intercalate
        ((installCommands options.driver manager).map (" ".intercalate ·))))
  sayPanel "Next steps"
    ("\n".intercalate (((nextSteps options manager).zipIdx 1).map fun (step, i) =>
      s!"{i}. " ++ Console.escape step))
  say "Happy coding with Drizzle ORM!"

/-- Sets the project at a directory up. Gives the names of the files that were written, or would
have been. -/
def setUp (root : Path) (options : Setup.Options) : Command (List String) := do
  let manager := Detection.manager (← get).tree root
  let created ← createFiles root options
  if options.dryRun then
    say "\nDry run complete. No files were written.\n"
  else if created.isEmpty then
    say "\nNo files were created. All files already exist.\n"
  else
    let _ ← addScripts root
    let installed ← if options.install then install root options.driver manager else pure false
    saySummary options manager created installed
  return created

end Command
end SchemaScaffold
