import SchemaScaffold.Json.Parser
import SchemaScaffold.Json.Relaxed
import SchemaScaffold.Project.Layout
import SchemaScaffold.Project.Tree
import SchemaScaffold.Source.Scan

/-!
Detecting the host project from its files: layout and alias, dialect, and package manager. Each
detection only looks; what it cannot read falls back to the default or is reported, as its rule
says.
-/

namespace SchemaScaffold

open Text Source

/-- Why a detection fails. -/
inductive DetectionError
  | file (e : FileError)
  | undecodable
  | shape (e : Json.ShapeError)
  | integerTooLong
  | nestedTooDeeply
  deriving Repr, DecidableEq

namespace Detection

/-- An `@` and a word, or `~`, before a slash. -/
def aliasPrefix? (cs : List Char) : Option (List Char) :=
  match cs with
  | '@' :: rest =>
    if (rest.dropWhile isWordChar).head? == some '/' then some ('@' :: rest.takeWhile isWordChar)
    else none
  | '~' :: '/' :: _ => some ['~']
  | _ => none

def defaultAlias : String := "@"

/-- The alias that the first fitting path key names. -/
def firstAlias (keys : List (List UInt16)) : String :=
  match keys.findSome? fun k => aliasPrefix? (charsOf k) with
  | some cs => String.ofList cs
  | none => defaultAlias

/-- The alias of a list of path keys, which must be texts up to the one that fits. -/
def aliasOfItems : List Json.Value → Except Json.ShapeError String
  | [] => .ok defaultAlias
  | .text units :: items =>
    match aliasPrefix? (charsOf units) with
    | some cs => .ok (String.ofList cs)
    | none => aliasOfItems items
  | _ :: _ => .error .notText

/-- The alias of a `paths` entry. A text has single characters for keys, which never fit. -/
def aliasOfPaths (paths : Json.Value) : Except Json.ShapeError String :=
  if !paths.isGiven then .ok defaultAlias
  else
    match paths with
    | .record entries => .ok (firstAlias (entries.map (·.1)))
    | .list items => aliasOfItems items
    | .text _ => .ok defaultAlias
    | _ => .error .notText

/-- The alias of a compiler configuration. A configuration that is no record has none. -/
def aliasOfConfig (config : Json.Value) : Except Json.ShapeError String :=
  match config with
  | .record entries => do
    let options ← Json.Entries.subrecord entries "compilerOptions"
    aliasOfPaths ((Json.Entries.get? options (Json.key "paths")).getD .null)
  | _ => .ok defaultAlias

def aliasFile : String := "tsconfig.json"

/-- The alias of the project at `root`: the first in the paths of its compiler configuration, which
may be relaxed JSON. A file that cannot be read as such names none. -/
def importAlias (t : Tree) (root : Path) : Except DetectionError String :=
  let path := root ++ [aliasFile]
  if !t.exists? path then .ok defaultAlias
  else
    match t.read path with
    | .error e => .error (.file e)
    | .ok none => .ok defaultAlias
    | .ok (some s) =>
      match Json.parse (Json.strict s) with
      | .error .malformed => .ok defaultAlias
      | .error .integerTooLong => .error .integerTooLong
      | .error .nestedTooDeeply => .error .nestedTooDeeply
      | .ok config => (aliasOfConfig config).mapError .shape

/-- The places where the database files of a project may lie. -/
def dbCandidates (start : String) : List String :=
  ["db", "lib/db", "server/db"].map fun place => start ++ place

/-- The layout of the project at `root`. -/
def layout (t : Tree) (root : Path) : Except DetectionError Layout := do
  let useSrc := t.exists? (root ++ ["src", "app"])
  let start := if useSrc then "src/" else ""
  let there := (dbCandidates start).find? fun place => t.exists? (root ++ Path.parse place)
  return {
    useSrc, importAlias := ← importAlias t root, dbFolder := there.getD (start ++ "db")
    appFolder := start ++ "app" }

/-- The names that stand for a dialect other than SQLite. -/
def dialectNames : List (String × Dialect) := [
  ("postgresql", .postgresql), ("postgres", .postgresql), ("pg", .postgresql),
  ("mysql", .mysql), ("mysql2", .mysql)]

/-- The word that a `dialect:` entry names, at the start of a text. -/
def dialectEntry? (cs : List Char) : Option (List Char) := do
  let isQuote (c : Char) : Bool := c == '"' || c == '\x27'
  let cs ← quote? isQuote (skipBlanks (← dropText? "dialect:".toList cs))
  let (word, cs) ← word? cs
  let _ ← quote? isQuote cs
  return word

/-- The first `dialect:` entry of a text. -/
def firstDialect? : List Char → Option (List Char)
  | [] => none
  | c :: cs =>
    match dialectEntry? (c :: cs) with
    | some word => some word
    | none => firstDialect? cs

/-- The dialect that a configuration text names; whatever is not known otherwise is of the SQLite
family. -/
def dialectOf (s : String) : Dialect :=
  match firstDialect? s.toList with
  | some word => (dialectNames.lookup (String.ofList word)).getD .sqlite
  | none => .sqlite

/-- The dialect of the project at `root`, or nothing without a configuration file. -/
def dialect? (t : Tree) (root : Path) : Except DetectionError (Option Dialect) :=
  let path := root ++ [Project.configFile]
  if !t.exists? path then .ok none
  else
    match t.read path with
    | .error e => .error (.file e)
    | .ok none => .error .undecodable
    | .ok (some s) => .ok (some (dialectOf s))

/-- The package manager of the project at `root`. -/
def manager (t : Tree) (root : Path) : PackageManager :=
  let fits (entry : String × PackageManager) : Bool := t.exists? (root ++ [entry.1])
  match PackageManager.lockfiles.find? fits with
  | some (_, m) => m
  | none => .npm

end Detection
end SchemaScaffold
