import SchemaScaffold.Field.Form
import SchemaScaffold.Generated.Basic

/-! Forms of a model: one control for each field, and one entry for each when the form is read. -/

namespace SchemaScaffold.Generated

open Naming

/-- A character as it may stand in markup text and in quoted attributes. -/
def markupChar : Char → List Char
  | '&' => "&amp;".toList
  | '>' => "&gt;".toList
  | '<' => "&lt;".toList
  | '\x27' => "&#39;".toList
  | '"' => "&#34;".toList
  | c => [c]

def markupText (s : String) : String := String.ofList (s.toList.flatMap markupChar)

/-- The properties that every control starts with. -/
def identityLines (field : Field) : List String :=
  [s!"            id=\"{field.name}\"", s!"            name=\"{field.name}\""]

/-- The property that fills a control in when a record is edited. -/
def defaultLines (property : String) (field : Field) (record : Option String) : List String :=
  match record with
  | some record => [s!"            {property}=\x7b {field.defaultValue record} \x7d"]
  | none => []

def requiredLines (field : Field) : List String :=
  if field.nullable then [] else ["            required"]

def optionLine (value : String) : String :=
  s!"            <option value=\"{markupText value}\">{markupText value}</option>"

/-- The options of a selection, led by the empty one where the field may be null. -/
def optionLines (field : Field) : List String :=
  (if field.nullable then ["            <option value=\"\">None</option>"] else []) ++
    (field.enumValues.getD []).map optionLine

/-- Numbers with decimal places accept any step. -/
def stepLines (field : Field) : List String :=
  if field.type == .float || field.type == .decimal then ["            step=\"any\""] else []

def controlLines (field : Field) (record : Option String) : List String :=
  match field.control with
  | "textarea" =>
    ["          <textarea"] ++ identityLines field ++ defaultLines "defaultValue" field record ++
      requiredLines field ++ ["          />"]
  | "select" =>
    ["          <select"] ++ identityLines field ++ defaultLines "defaultValue" field record ++
      requiredLines field ++ ["          >"] ++ optionLines field ++ ["          </select>"]
  | "checkbox" =>
    ["          <input", "            type=\"checkbox\""] ++ identityLines field ++
      defaultLines "defaultChecked" field record ++ ["          />"]
  | kind =>
    ["          <input", s!"            type=\"{kind}\""] ++ identityLines field ++
      stepLines field ++ defaultLines "defaultValue" field record ++ requiredLines field ++
      ["          />"]

/-- A labelled control, with a blank line after it. -/
def fieldLines (record : Option String) (field : Field) : List String :=
  ["        <div>",
    s!"          <label htmlFor=\"{field.name}\">{humanize field.name}</label>"] ++
    controlLines field record ++ ["        </div>", ""]

/-- The entries read from a submitted form, with a blank line after them. -/
def valueLines (m : Model) (fields : List Field) : List String :=
  (fields.map fun field => s!"      {field.name}: {field.formValue m.names.pascalName},") ++ [""]

/-- What a form module imports beside its action: the type of a new record, for its enum fields. -/
def newTypeImport (m : Model) (fields : List Field) : String :=
  if fields.any Field.isEnum then s!", type New{m.names.pascalName}" else ""

end SchemaScaffold.Generated
