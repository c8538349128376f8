import SchemaScaffold.Text.Split

/-!
Paths as lists of components, counted from the directory that holds the project tree. `..` leads to
the directory above; a path may start with it, and then lies outside the tree.
-/

namespace SchemaScaffold

abbrev Path := List String

namespace Path

/-- The directory above. -/
def up : String := ".."

/-- The components of a written path. Empty components and `.` lead nowhere. -/
def parse (s : String) : Path := (Text.splitAt '/' s).filter fun part => part != "" && part != "."

/-- The directory above a path that goes up only at its start. -/
def parent (p : Path) : Path := if p.getLast?.any (· != up) then p.dropLast else p ++ [up]

/-- The path without the steps that a later `..` takes back. -/
def normalize (p : Path) : Path :=
  p.foldl (fun done part => if part == up then parent done else done ++ [part]) []

/-- The path as seen from a directory. -/
def relativeTo (p start : Path) : Path :=
  let p := normalize p
  let shared := ((p.zip start).takeWhile fun (a, b) => a == b).length
  List.replicate (start.length - shared) up ++ p.drop shared

/-- A relative path as text. -/
def text (p : Path) : String := if p.isEmpty then "." else "/".intercalate p

/-- A path as text, below the text of the directory that it is counted from. -/
def below (base : String) (p : Path) : String :=
  if p.isEmpty then base else base ++ "/" ++ "/".intercalate p

/-- The last component. -/
def name (p : Path) : String := p.getLast?.getD ""

end Path
end SchemaScaffold
