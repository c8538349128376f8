import SchemaScaffold.CommandLine.Run

/-!
The command line. A run reads the tree below the current directory, works on it as a whole, and
writes back what changed. Questions are answered line by line: with each line the run starts over,
and only what it shows beyond the last time is printed.
-/

namespace SchemaScaffold

open CommandLine

namespace Main

/-- Directories that no command looks into. -/
def closedDirectories : List String := [".git", ".next", "node_modules"]

/-- The files whose text commands read; of all others it matters only that they are there. -/
def readFiles : List String := [
  Detection.aliasFile, Project.configFile, Project.schemaFile, Setup.packageFile,
  Setup.envExampleFile]

/-- How deep directories are followed. -/
def depth : Nat := 32

def contentOf (bytes : ByteArray) : Content :=
  match String.fromUTF8? bytes with
  | some s => .text s
  | none => .binary bytes.toList

/-- The entries below a directory; what cannot be looked at is left out. -/
def entriesBelow : Nat → Path → IO (List (Path × Node))
  | 0, _ => return []
  | levels + 1, path => do
    let here ← IO.currentDir
    let below ← (← (here / path.text).readDir).toList.mapM fun entry => do
      let place := path ++ [entry.fileName]
      match ← entry.path.metadata.toBaseIO with
      | .error _ => return []
      | .ok found =>
        if found.type == .dir then
          let inner ←
            if closedDirectories.contains entry.fileName then pure []
            else entriesBelow levels place
          return (place, Node.directory) :: inner
        else if readFiles.contains entry.fileName then
          return [(place, Node.file (contentOf (← IO.FS.readBinFile entry.path)))]
        else return [(place, Node.file (.binary []))]
    return below.flatten

/-- Writes back what a run changed. -/
def apply (before after : Tree) : IO Unit := do
  for (path, node) in before.changed after do
    match node with
    | .directory => IO.FS.createDirAll path.text
    | .file (.text s) => IO.FS.writeFile path.text s
    | .file (.binary _) => pure ()
  for (path, node) in (before.removed after).reverse do
    match node with
    | .directory => IO.FS.removeDirAll path.text
    | .file _ => IO.FS.removeFile path.text

/-- Runs a command line with the input read so far, and goes on while it asks for more. -/
partial def converse (arguments : List String) (start : Session) (input : List String)
    (shown : Nat) : IO (Exit × Session) := do
  let (exit, after) := run arguments { start with input }
  IO.print (after.output.drop shown)
  (← IO.getStdout).flush
  if exit != .aborted then return (exit, after)
  let line ← (← IO.getStdin).getLine
  if line.isEmpty then return (exit, after)
  converse arguments start (input ++ Text.lines line) after.output.length

/-- The session of a run in the current directory. External commands are left to the user. -/
def startSession : IO Session := do
  let width := ((← IO.getEnv "COLUMNS").bind String.toNat?).getD 80
  return {
    base := (← IO.currentDir).toString, tree := { entries := ← entriesBelow depth [] }, width
    succeeds := false }

def usage : String :=
  "usage: brizzle <model|resource|scaffold|api> NAME [FIELD ...] [-f] [-n] [-u]" ++
    " [--no-timestamps]\n" ++
  "       brizzle actions NAME [-f] [-n]\n" ++
  "       brizzle destroy <scaffold|resource|api> NAME [-f] [-n]\n" ++
  "       brizzle init [--dialect DIALECT --driver DRIVER] [--no-install] [-f] [-n]\n" ++
  "       brizzle <config|version>\n"

end Main
end SchemaScaffold

def main (arguments : List String) : IO UInt32 := do
  let start ← SchemaScaffold.Main.startSession
  let (exit, after) ← SchemaScaffold.Main.converse arguments start [] 0
  SchemaScaffold.Main.apply start.tree after.tree
  IO.eprint after.errors
  match exit with
  | .misused => IO.eprint SchemaScaffold.Main.usage
  | .crashed e => IO.eprintln ("Error: " ++ e.message after.base)
  | _ => pure ()
  return exit.code.toUInt32
