/-!
Fields of a model: what a definition such as `title:string` or `userId:references:user` stands for,
before any database dialect is chosen.
-/

namespace SchemaScaffold

/-- The kinds of value a field can hold. -/
inductive FieldType
  | string | text | integer | bigint | boolean | float | decimal | datetime | date | json | uuid
  | enum | reference
  deriving Repr, DecidableEq

namespace FieldType

def all : List FieldType := [
  .string, .text, .integer, .bigint, .boolean, .float, .decimal, .datetime, .date, .json, .uuid,
  .enum, .reference]

def name : FieldType → String
  | .string => "string"
  | .text => "text"
  | .integer => "integer"
  | .bigint => "bigint"
  | .boolean => "boolean"
  | .float => "float"
  | .decimal => "decimal"
  | .datetime => "datetime"
  | .date => "date"
  | .json => "json"
  | .uuid => "uuid"
  | .enum => "enum"
  | .reference => "reference"

def ofName? (s : String) : Option FieldType := all.find? (·.name == s)

theorem mem_all (t : FieldType) : t ∈ all := by cases t <;> decide

/-- The types that need nothing but their name. -/
def scalars : List FieldType := all.filter fun t => t != .enum && t != .reference

end FieldType

/-- One field of a model. An enum needs its values and a reference its target. -/
structure Field where
  name : String
  type : FieldType := .string
  nullable : Bool := false
  unique : Bool := false
  enumValues : Option (List String) := none
  target : Option String := none
  deriving Repr, DecidableEq

/-- What a field of a special kind lacks. -/
inductive FieldGap
  | values
  | target
  deriving Repr, DecidableEq

def FieldGap.message : FieldGap → String
  | .values => "enum fields require at least one value"
  | .target => "reference fields require a target model"

namespace Field

def isEnum (f : Field) : Bool := f.type == .enum

def isReference (f : Field) : Bool := f.type == .reference

def gap? (f : Field) : Option FieldGap :=
  if f.isEnum && (f.enumValues.getD []).isEmpty then some .values
  else if f.isReference && (f.target.getD "").isEmpty then some .target
  else none

/-- The field itself, unless its kind lacks something. -/
def checked (f : Field) : Except FieldGap Field :=
  match f.gap? with
  | some gap => .error gap
  | none => .ok f

end Field
end SchemaScaffold
