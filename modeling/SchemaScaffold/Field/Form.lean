import SchemaScaffold.Field.Basic

/-!
Fields in forms: the control that edits a field, and the code that reads it back, shows it, and
fills the control in.
-/

namespace SchemaScaffold.Field

/-- The form control of a field: a kind of input, a text area or a selection. -/
def control (f : Field) : String :=
  match f.type with
  | .text | .json => "textarea"
  | .enum => "select"
  | .boolean => "checkbox"
  | .datetime => "datetime-local"
  | .date => "date"
  | .integer | .bigint | .float | .reference | .decimal => "number"
  | .string | .uuid => "text"

/-- Code that turns the submitted entry into the column's value. An empty entry of a nullable field
is null. -/
def formValue (f : Field) (pascalName : String) : String :=
  let raw := "formData.get(\"" ++ f.name ++ "\")"
  let orNull (value : String) := if f.nullable then "(" ++ value ++ ") || null" else value
  let whenGiven (converted : String) :=
    if f.nullable then raw ++ " ? " ++ converted ++ " : null" else converted
  match f.type with
  | .boolean => raw ++ " === \"on\""
  | .integer | .bigint | .float | .reference => whenGiven ("Number(" ++ raw ++ ")")
  | .datetime | .date => whenGiven ("new Date(" ++ raw ++ " as string)")
  | .json => whenGiven ("JSON.parse(" ++ raw ++ " as string)")
  | .enum => orNull (raw ++ " as New" ++ pascalName ++ "[\"" ++ f.name ++ "\"]")
  | .string | .text | .uuid | .decimal => orNull (raw ++ " as string")

/-- Code that shows the field of the record `var` as text. -/
def displayValue (f : Field) (var : String) : String :=
  let value := var ++ "." ++ f.name
  match f.type with
  | .boolean => value ++ " ? \"Yes\" : \"No\""
  | .datetime => value ++ " ? new Date(" ++ value ++ ").toLocaleString() : \"\""
  | .date => value ++ " ? new Date(" ++ value ++ ").toLocaleDateString() : \"\""
  | .json => "JSON.stringify(" ++ value ++ ")"
  | _ => value ++ " ?? \"\""

/-- Code that fills the control of the field when the record `var` is edited. -/
def defaultValue (f : Field) (var : String) : String :=
  let value := var ++ "." ++ f.name
  match f.type with
  | .boolean => value ++ " ?? false"
  | .datetime => value ++ " ? new Date(" ++ value ++ ").toISOString().slice(0, 16) : \"\""
  | .date => value ++ " ? new Date(" ++ value ++ ").toISOString().slice(0, 10) : \"\""
  | .json => value ++ " ? JSON.stringify(" ++ value ++ ", null, 2) : \"\""
  | _ => value ++ " ?? \"\""

end SchemaScaffold.Field
