import SchemaScaffold.Json.Parser
import SchemaScaffold.Json.Printer

/-!
The package file of a project, as far as a setup is concerned: the scripts of the migration tool are
added to it, and it tells whether the project is a Next.js project.
-/

namespace SchemaScaffold.Setup

def packageFile : String := "package.json"

/-- The scripts of the migration tool, by name. -/
def scripts : List (String × String) := [
  ("db:generate", "drizzle-kit generate"), ("db:migrate", "drizzle-kit migrate"),
  ("db:push", "drizzle-kit push"), ("db:studio", "drizzle-kit studio")]

def scriptsKey : List UInt16 := Json.key "scripts"

/-- Whether an entry is there and given. -/
def isGivenIn (entries : Json.Entries) (name : String) : Bool :=
  (entries.get? (Json.key name)).any Json.Value.isGiven

/-- The scripts that a record of scripts lacks. -/
def missingScripts (entries : Json.Entries) : List (String × String) :=
  scripts.filter fun script => !isGivenIn entries script.1

/-- A package with the missing scripts, and how many were missing. Its scripts must be a record, if
there are any. -/
def addScripts (package : Json.Entries) : Except Json.ShapeError (Json.Entries × Nat) := do
  let entries ←
    match package.get? scriptsKey with
    | some v => v.entries
    | none => pure []
  let missing := missingScripts entries
  let entries := missing.foldl (fun entries script =>
    entries.set (Json.key script.1) (.text (Json.key script.2))) entries
  return (package.set scriptsKey (.record entries), missing.length)

/-- Whether a package depends on Next.js. -/
def dependsOnNext (package : Json.Entries) : Except Json.ShapeError Bool := do
  if isGivenIn (← package.subrecord "dependencies") "next" then return true
  else return isGivenIn (← package.subrecord "devDependencies") "next"

end SchemaScaffold.Setup
