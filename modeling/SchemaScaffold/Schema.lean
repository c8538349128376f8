import SchemaScaffold.Source.Declaration
import SchemaScaffold.Source.Header
import SchemaScaffold.Source.Import
import SchemaScaffold.Table

/-!
The schema file: imports first, then the tables, one block each. Merging a table keeps what else
stands in the file, up to runs of blank lines: imports only grow, other blocks stay, and a comment at
the top stays there.
-/

namespace SchemaScaffold.Schema

open Source

/-- What a schema text holds. -/
structure Contents where
  imports : Imports
  tables : List String
  deriving Repr, DecidableEq

def parse (source : String) : Contents where
  imports := extractImports source.toList
  tables := tableNames source.toList

inductive MergeAction
  | created | appended | replaced | skipped
  deriving Repr, DecidableEq

def MergeAction.name : MergeAction → String
  | .created => "created"
  | .appended => "appended"
  | .replaced => "replaced"
  | .skipped => "skipped"

/-- The whole new text, and what the merge did. -/
structure Merge where
  content : String
  action : MergeAction
  deriving Repr, DecidableEq

def Merge.changed (m : Merge) : Bool := m.action != .skipped

/-- A schema with one table. -/
def fresh (table : Table) : String :=
  table.requiredImports.render ++ "\n\n" ++ table.render ++ "\n"

/-- Header, imports, the other statements and the table, a blank line between each two. -/
def assemble (header : List Char) (source : List Char) (table : Table) : String :=
  let imports := (extractImports source).merge table.requiredImports
  let body := Text.trim (stripImports source)
  let part (cs : List Char) := if cs.isEmpty then [] else [String.ofList cs]
  "\n\n".intercalate
    (part (Text.trim header) ++ [imports.render] ++ part body ++ [table.render]) ++ "\n"

/-- Integrates a table into a schema text. A blank text becomes a fresh schema; a table that is
there already stays, unless `force` replaces it; any other table is appended. -/
def merge (existing : Option String) (table : Table) (force : Bool) : Except SourceError Merge :=
  let text := existing.getD ""
  let source := text.toList
  if Text.allBlank source then .ok { content := fresh table, action := .created }
  else
    let body := afterHeader source
    if tableExists source table.name.toList then
      if !force then .ok { content := text, action := .skipped }
      else
        (removeTable body table.name.toList).map fun rest =>
          { content := assemble (header source) rest table, action := .replaced }
    else .ok { content := assemble (header source) body table, action := .appended }

/-- The text of a table's declaration. -/
def tableBlock? (source table : String) : Except SourceError (Option String) :=
  (Source.tableBlock? source.toList table.toList).map (·.map String.ofList)

/-- The text without a table. -/
def remove (source table : String) : Except SourceError String :=
  (removeTable source.toList table.toList).map String.ofList

end SchemaScaffold.Schema
