import SchemaScaffold.Console.Display
import SchemaScaffold.Session.Failure

/-!
A session: the tree of files that commands work on, the directory they are run in, the projects they
remember, and what passes between them and the console. A command changes the session and gives a
value or a failure; a failure keeps what was done before it.
-/

namespace SchemaScaffold

structure Session where
  /-- The text of the root directory of the tree. -/
  base : String
  tree : Tree
  /-- The working directory, unless it was removed. -/
  directory : Option Path := some []
  /-- The projects detected so far, by their root and whether the detection warned. -/
  remembered : List ((Path × Bool) × Project) := []
  /-- The lines of input that are left. -/
  input : List String := []
  /-- Whether a confirmation shows the line it read. -/
  echoes : Bool := false
  output : String := ""
  errors : String := ""
  /-- The columns of the console. -/
  width : Nat := 80
  /-- The external commands that were started, each with its directory. -/
  started : List (Path × List String) := []
  /-- Whether external commands succeed. -/
  succeeds : Bool := true
  deriving Repr, DecidableEq

/-- A command that gives a value of type `α`. -/
abbrev Command (α : Type) := EStateM Failure Session α

namespace Command

/-- The value of a computation outside the session, or its failure. -/
def lift {ε α : Type} (failure : ε → Failure) : Except ε α → Command α
  | .ok a => pure a
  | .error e => throw (failure e)

/-- Writes to the output as it is. -/
def print (s : String) : Command Unit :=
  modify fun session => { session with output := session.output ++ s }

/-- Shows markup. -/
def say (markup : String) : Command Unit := do
  print (Console.shown (← get).width markup)

/-- Shows markup among the errors. -/
def warn (markup : String) : Command Unit :=
  modify fun session =>
    { session with errors := session.errors ++ Console.shown session.width markup }

def workingDirectory : Command Path := do
  match (← get).directory with
  | some directory => return directory
  | none => throw .directoryGone

def exists? (path : Path) : Command Bool := do
  lift .file ((← get).tree.probe path)

/-- The text of a file. -/
def readText (path : Path) : Command String := do
  match ← lift .file ((← get).tree.read path) with
  | some s => return s
  | none => throw .undecodable

/-- The text of a file, if there is one. -/
def readText? (path : Path) : Command (Option String) := do
  if ← exists? path then return some (← readText path) else return none

/-- Changes the tree, unless that fails. -/
def change (edit : Tree → Except FileError Tree) : Command Unit := do
  let tree ← lift .file (edit (← get).tree)
  modify fun session => { session with tree }

/-- Makes a directory and the missing ones above it. The number bounds their count. -/
def makeDirectoriesUpTo : Nat → Path → Command Unit
  | 0, path => change (·.makeDirectory path)
  | count + 1, path => do
    if (← get).tree.locate path == .nowhere .missing then makeDirectoriesUpTo count path.dropLast
    change (·.makeDirectory path)

def makeDirectories (path : Path) : Command Unit := makeDirectoriesUpTo path.length path

/-- Writes a file over what is there, and makes the missing directories above it, which stay even if
the file cannot be written. -/
def store (path : Path) (content : String) : Command Unit := do
  makeDirectories path.dropLast
  change (·.write path content)

/-- Removes a directory with everything in it, the working directory included. -/
def erase (path : Path) : Command Unit := do
  let session ← get
  let tree ← lift .file (session.tree.removeDirectory path)
  let directory := session.directory.filter fun directory =>
    !(Path.normalize path).isPrefixOf directory
  set { session with tree, directory }

end Command
end SchemaScaffold
