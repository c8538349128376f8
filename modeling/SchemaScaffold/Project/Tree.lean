import SchemaScaffold.Project.Path
import SchemaScaffold.Text.Lines

/-!
A tree of files and directories. Looking a path up follows it component by component, so a path
through a file or through a missing directory leads nowhere, and so does one with a name that no
file can have. Removing a directory takes everything below along.
-/

namespace SchemaScaffold

/-- What a file holds: text, or bytes that are no text. -/
inductive Content
  | text (s : String)
  | binary (bytes : List UInt8)
  deriving Repr, DecidableEq

inductive Node
  | directory
  | file (content : Content)
  deriving Repr, DecidableEq

def Node.isDirectory : Node → Bool
  | .directory => true
  | .file _ => false

/-- Why a file operation fails. -/
inductive FileFault
  | exists
  | isDirectory
  | notDirectory
  | missing
  | nameTooLong
  /-- A name has a null character. The operating system is not asked then. -/
  | nullCharacter
  deriving Repr, DecidableEq

namespace FileFault

def text : FileFault → String
  | .exists => "File exists"
  | .isDirectory => "Is a directory"
  | .notDirectory => "Not a directory"
  | .missing => "No such file or directory"
  | .nameTooLong => "File name too long"
  | .nullCharacter => "Invalid argument"

/-- The number that the operating system gives the fault. -/
def number : FileFault → String
  | .exists => "17"
  | .isDirectory => "21"
  | .notDirectory => "20"
  | .missing => "2"
  | .nameTooLong => "36"
  | .nullCharacter => "22"

end FileFault

/-- A failed file operation, with the path it was about. -/
structure FileError where
  fault : FileFault
  path : Path
  /-- Whether it is a file that was to be removed as a directory. -/
  removal : Bool := false
  deriving Repr, DecidableEq

/-- The entries below the root directory, each path once. -/
structure Tree where
  entries : List (Path × Node)
  deriving Repr, DecidableEq

/-- Where a path leads. -/
inductive Target
  /-- To something, at this place. -/
  | found (place : Path) (node : Node)
  /-- To a free place in a directory. -/
  | free (place : Path)
  /-- To no place, because of a fault. -/
  | nowhere (fault : FileFault)
  deriving Repr, DecidableEq

namespace Tree

def empty : Tree := { entries := [] }

/-- The root, and every directory above it. -/
def isAbove (p : Path) : Bool := p.all (· == Path.up)

def get? (t : Tree) (p : Path) : Option Node :=
  if isAbove p then some .directory else t.entries.lookup p

/-- Puts a node at a place, over what is there. -/
def insert (t : Tree) (p : Path) (node : Node) : Tree where
  entries :=
    if (t.entries.lookup p).isSome then
      t.entries.map fun entry => if entry.1 == p then (p, node) else entry
    else t.entries ++ [(p, node)]

/-- Takes out a place and everything below it. -/
def erase (t : Tree) (p : Path) : Tree where
  entries := t.entries.filter fun entry => !p.isPrefixOf entry.1

/-- The bytes that a name may have. -/
def nameLimit : Nat := 255

/-- The bytes that a path may have. -/
def pathLimit : Nat := 4095

/-- Follows the rest of a path from a directory. -/
def follow (t : Tree) (directory : Path) : Path → Target
  | [] => .found directory .directory
  | part :: rest =>
    if part == Path.up then t.follow directory.parent rest
    else if nameLimit < part.utf8ByteSize then .nowhere .nameTooLong
    else
      match t.get? (directory ++ [part]) with
      | some .directory => t.follow (directory ++ [part]) rest
      | some (.file content) =>
        if rest.isEmpty then .found (directory ++ [part]) (.file content)
        else .nowhere .notDirectory
      | none => if rest.isEmpty then .free (directory ++ [part]) else .nowhere .missing

def hasNull (name : String) : Bool := name.toList.contains '\x00'

def locate (t : Tree) (p : Path) : Target :=
  if p.any hasNull then .nowhere .nullCharacter
  else if pathLimit < (Path.text p).utf8ByteSize then .nowhere .nameTooLong
  else t.follow [] p

def exists? (t : Tree) (p : Path) : Bool :=
  match t.locate p with
  | .found _ _ => true
  | _ => false

/-- Whether a path leads to something. To ask that of a name that is too long is a failure. -/
def probe (t : Tree) (p : Path) : Except FileError Bool :=
  match t.locate p with
  | .found _ _ => .ok true
  | .nowhere .nameTooLong => .error { fault := .nameTooLong, path := p }
  | _ => .ok false

/-- Makes one directory, unless it is there. -/
def makeDirectory (t : Tree) (p : Path) : Except FileError Tree :=
  match t.locate p with
  | .found _ .directory => .ok t
  | .found _ (.file _) => .error { fault := .exists, path := p }
  | .free place => .ok (t.insert place .directory)
  | .nowhere fault => .error { fault, path := p }

/-- What reading a file gives: its text, or nothing if it holds no text. -/
def read (t : Tree) (p : Path) : Except FileError (Option String) :=
  match t.locate p with
  | .found _ (.file (.text s)) => .ok (some (Text.withLineFeeds s))
  | .found _ (.file (.binary _)) => .ok none
  | .found _ .directory => .error { fault := .isDirectory, path := p }
  | .free _ => .error { fault := .missing, path := p }
  | .nowhere fault => .error { fault, path := p }

/-- Writes a file in a directory that is there. -/
def write (t : Tree) (p : Path) (s : String) : Except FileError Tree :=
  match t.locate p with
  | .found place (.file _) => .ok (t.insert place (.file (.text s)))
  | .free place => .ok (t.insert place (.file (.text s)))
  | .found _ .directory => .error { fault := .isDirectory, path := p }
  | .nowhere fault => .error { fault, path := p }

/-- Removes a directory with everything in it. -/
def removeDirectory (t : Tree) (p : Path) : Except FileError Tree :=
  match t.locate p with
  | .found place .directory => .ok (t.erase place)
  | .found _ (.file _) => .error { fault := .notDirectory, path := p, removal := true }
  | .free _ => .error { fault := .missing, path := p }
  | .nowhere fault => .error { fault, path := p }

/-- The entries of a later tree that are new or different. -/
def changed (before after : Tree) : List (Path × Node) :=
  after.entries.filter fun (p, node) => before.entries.lookup p != some node

/-- The entries of an earlier tree that are gone, or became the other kind of node. -/
def removed (before after : Tree) : List (Path × Node) :=
  before.entries.filter fun (p, node) =>
    (after.entries.lookup p).map Node.isDirectory != some node.isDirectory

end Tree
end SchemaScaffold
