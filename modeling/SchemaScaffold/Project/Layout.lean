import SchemaScaffold.Dialect
import SchemaScaffold.Project.Path
import SchemaScaffold.Text.Search

/-!
A host project: where its files lie, how its modules import each other, which database it talks to,
and which package manager it uses.
-/

namespace SchemaScaffold

/-- The layout conventions of a project. -/
structure Layout where
  useSrc : Bool := false
  importAlias : String := "@"
  dbFolder : String := "db"
  appFolder : String := "app"
  deriving Repr, DecidableEq

namespace Layout

/-- The module path of the database client: the alias stands for the root or for `src`. -/
def dbImport (l : Layout) : String :=
  l.importAlias ++ "/" ++
    String.ofList ((Text.dropText? "src/".toList l.dbFolder.toList).getD l.dbFolder.toList)

def schemaImport (l : Layout) : String := l.dbImport ++ "/schema"

end Layout

inductive PackageManager
  | npm | pnpm | yarn | bun
  deriving Repr, DecidableEq

namespace PackageManager

def all : List PackageManager := [.npm, .pnpm, .yarn, .bun]

def name : PackageManager → String
  | .npm => "npm"
  | .pnpm => "pnpm"
  | .yarn => "yarn"
  | .bun => "bun"

def ofName? (s : String) : Option PackageManager := all.find? (·.name == s)

/-- What runs a script of the project. -/
def runCommand : PackageManager → String
  | .npm => "npm run"
  | m => m.name

/-- The file that tells which manager a project uses, in the order they are looked for. -/
def lockfiles : List (String × PackageManager) :=
  [("bun.lockb", .bun), ("pnpm-lock.yaml", .pnpm), ("yarn.lock", .yarn)]

end PackageManager

structure Project where
  root : Path
  layout : Layout
  dialect : Dialect
  manager : PackageManager := .npm
  deriving Repr, DecidableEq

namespace Project

def configFile : String := "drizzle.config.ts"

def schemaFile : String := "schema.ts"

def appDir (p : Project) : Path := p.root ++ Path.parse p.layout.appFolder

def dbDir (p : Project) : Path := p.root ++ Path.parse p.layout.dbFolder

def schemaPath (p : Project) : Path := p.dbDir ++ [schemaFile]

end Project
end SchemaScaffold
