import SchemaScaffold.Field.Parser
import SchemaScaffold.Project.Detection
import SchemaScaffold.Schema
import SchemaScaffold.Setup.Driver
import SchemaScaffold.Text.Visible

/-!
Why a command fails. The faults of a request, of the column mappings and of a schema text are the
library's own; the others come from the files, or from an input that ends too early.
-/

namespace SchemaScaffold

open Naming Source

inductive Failure
  | name (e : ModelNameError)
  | field (e : FieldError)
  | table (e : TableError)
  /-- What is to be destroyed is no kind of generated code. -/
  | kind (value : String)
  | choice (e : Setup.ChoiceError)
  /-- A schema text that cannot be taken apart, with the file it came from where that is told. -/
  | schema (path : Option Path) (e : SourceError)
  | detection (e : DetectionError)
  /-- The working directory was removed. -/
  | directoryGone
  /-- The input ended at a confirmation. -/
  | unconfirmed
  /-- The input ended at a question of the wizard. -/
  | unanswered
  deriving Repr, DecidableEq

namespace Failure

def file (e : FileError) : Failure := .detection (.file e)

def undecodable : Failure := .detection .undecodable

/-- Whether the failure is one of the library's own. -/
def isOwn : Failure → Bool
  | .name _ | .field _ | .table _ | .kind _ | .choice _ | .schema _ _ => true
  | .detection _ | .directoryGone | .unconfirmed | .unanswered => false

/-- Whether the operating system refused a file operation. -/
def isFile : Failure → Bool
  | .detection (.file e) => e.fault != .nullCharacter
  | .directoryGone => true
  | _ => false

end Failure

/-- How a failed file operation names its path: as a literal, and what was to be removed as a path
object. -/
def FileError.pathText (base : String) (e : FileError) : String :=
  let literal := Text.visibleLiteral (Path.below base e.path)
  if e.removal then "PosixPath(" ++ literal ++ ")" else literal

def DetectionError.message (base : String) : DetectionError → String
  | .file e => "[Errno " ++ e.fault.number ++ "] " ++ e.fault.text ++ ": " ++ e.pathText base
  | .undecodable => "a file holds no text"
  | .shape .notRecord => "a JSON value is not a record"
  | .shape .notText => "a JSON value is not a text"
  | .integerTooLong => "a JSON integer is too long"
  | .nestedTooDeeply => "a JSON value is nested too deeply"

/-- The text of a failure, given the text of the root directory. -/
def Failure.message (base : String) : Failure → String
  | .name e => e.message
  | .field e => e.message
  | .table e => e.message
  | .kind value => "Unknown type \"" ++ value ++ "\". Use: scaffold, resource, or api"
  | .choice e => e.message
  | .schema (some path) e => Path.below base path ++ ": " ++ e.message
  | .schema none e => e.message
  | .detection e => e.message base
  | .directoryGone => "[Errno " ++ FileFault.missing.number ++ "] " ++ FileFault.missing.text
  | .unconfirmed | .unanswered => "Aborted."

end SchemaScaffold
