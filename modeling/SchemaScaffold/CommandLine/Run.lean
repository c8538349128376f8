import SchemaScaffold.CommandLine.Request
import SchemaScaffold.Session.Projects

/-!
Running a command line. A failure that a command answers for is shown among the errors; any other
ends the run as it is.
-/

namespace SchemaScaffold

namespace Command

/-- Shows the project that commands would work on. -/
def sayProject : Command Unit := do
  let project ← currentProject true
  let layout := project.layout
  print (Console.grid (← get).width "Detected project configuration" ("Property", "Value") [
    ("Project structure",
      if layout.useSrc then "src/ (e.g., src/app/, src/db/)" else "root (e.g., app/, db/)"),
    ("Path alias", layout.importAlias ++ "/"),
    ("App directory", layout.appFolder ++ "/"),
    ("DB directory", layout.dbFolder ++ "/"),
    ("Database dialect", project.dialect.name),
    ("Package manager", project.manager.name),
    ("DB import", layout.dbImport),
    ("Schema import", layout.schemaImport)])

end Command

namespace CommandLine

open Command

/-- The name and version of the program. -/
def versionText : String := "brizzle 0.1.0"

def Generator.run (generator : Generator) (options : Generate.Options) (name : String)
    (definitions : List String) : Command Generate.Outcome := do
  let project ← currentProject true
  match generator with
  | .model => Command.model project options name definitions
  | .resource => Command.resource project options name definitions
  | .scaffold => Command.scaffold project options name definitions
  | .api => Command.api project options name definitions

namespace Request

/-- What a request does. -/
def run : Request → Command Unit
  | .generate generator options name definitions => do
    let _ ← generator.run options name definitions
  | .actions options name => do
    let _ ← Command.actions (← currentProject true) options name
  | .destroy options kind name => do
    destroyConfirmed (← currentProject true) options kind name
  | .config => sayProject
  | .init request => do
    let _ ← Command.init (← workingDirectory) request
  | .version => say versionText

/-- Whether the command of a request answers for a failure; showing the project answers for none. -/
def answersFor (request : Request) (e : Failure) : Bool :=
  match request with
  | .config | .version => false
  | _ => e.isOwn || e.isFile

end Request

/-- How a run ends. -/
inductive Exit
  | done
  /-- A failure was shown. -/
  | failed
  /-- The input ended at a question. -/
  | aborted
  /-- The arguments are no request. -/
  | misused
  /-- A failure that no command answers for. -/
  | crashed (e : Failure)
  deriving Repr, DecidableEq

def Exit.code : Exit → Nat
  | .done => 0
  | .failed | .aborted | .crashed _ => 1
  | .misused => 2

/-- The session with a line more among its errors. -/
def withError (session : Session) (line : String) : Session :=
  { session with errors := session.errors ++ line ++ "\n" }

/-- Ends a run that failed: the failure is shown if the command answers for it. -/
def fail (request : Request) (e : Failure) (session : Session) : Exit × Session :=
  match e with
  | .unconfirmed => (.aborted, withError session "Aborted.")
  | .unanswered => (.aborted, withError session "\nAborted.")
  | e =>
    if request.answersFor e then
      let markup := "Error: " ++ Console.escape (e.message session.base)
      (.failed, { session with errors := session.errors ++ Console.shown session.width markup })
    else (.crashed e, session)

/-- Runs a request in a session. -/
def runRequest (request : Request) (session : Session) : Exit × Session :=
  match request.run session with
  | .ok _ session => (.done, session)
  | .error e session => fail request e session

/-- Runs a command line in a session. -/
def run (arguments : List String) (session : Session) : Exit × Session :=
  match Request.ofArguments? arguments with
  | some request => runRequest request session
  | none => (.misused, session)

end CommandLine
end SchemaScaffold
