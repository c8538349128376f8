import SchemaScaffold.Field.Basic
import SchemaScaffold.Naming.Model

/-!
Reading field definitions. The grammar is `name[?][:type[?]][:modifier...]`: a question mark on the
name or on the type makes the field nullable, `unique` is the only modifier, and the third segment
of an `enum` or `references` field holds its values or its target. Segments are read left to right
and the first fault is reported; no field comes out of a faulty definition.
-/

namespace SchemaScaffold

open Text Naming

inductive FieldError
  | nameMissing (raw : String)
  | nameMalformed (name : String)
  | valuesMissing (name : String)
  | targetMissing (name : String)
  | targetMalformed (target name : String)
  | typeUnknown (token : String)
  | modifierUnknown (modifier raw : String)
  deriving Repr, DecidableEq

namespace Field

def enumToken : String := "enum"

def referencesToken : String := "references"

def uniqueModifier : String := "unique"

def grammarHint : String := "name[?][:type[?]][:unique]"

/-- The accepted spellings of the scalar types, canonical names first. -/
def typeTokens : List (String × FieldType) :=
  FieldType.scalars.map (fun t => (t.name, t)) ++
    [("int", .integer), ("bool", .boolean), ("timestamp", .datetime)]

end Field

def FieldError.message : FieldError → String
  | .nameMissing raw =>
    "Invalid field definition \"" ++ raw ++ "\". Field name is required (" ++
      Field.grammarHint ++ ")."
  | .nameMalformed name =>
    "Invalid field name \"" ++ name ++ "\". Must be camelCase (start with lowercase letter)."
  | .valuesMissing name =>
    "Enum field \"" ++ name ++ "\" requires values. Example: " ++ name ++
      ":enum:draft,published,archived"
  | .targetMissing name =>
    "Reference field \"" ++ name ++ "\" requires a target model. Example: " ++ name ++
      ":references:user"
  | .targetMalformed target name =>
    "Invalid reference target \"" ++ target ++ "\" for field \"" ++ name ++
      "\". Must start with a letter and contain only letters and numbers."
  | .typeUnknown token =>
    "Invalid field type \"" ++ token ++ "\". Valid types: " ++
      ", ".intercalate (Field.typeTokens.map (·.1) ++ [Field.enumToken, Field.referencesToken])
  | .modifierUnknown modifier raw =>
    "Unknown modifier \"" ++ modifier ++ "\" in field definition \"" ++ raw ++ "\". Expected " ++
      Field.grammarHint

namespace Field

/-- Takes a final question mark off a segment, and tells whether there was one. -/
def stripNullable (segment : String) : String × Bool :=
  if segment.toList.getLast? == some '?' then (String.ofList segment.toList.dropLast, true)
  else (segment, false)

/-- A small letter, then letters and digits, then at most one line break. -/
def isFieldName (s : String) : Bool :=
  match (chomp s.toList).1 with
  | [] => false
  | c :: cs => c.isLower && cs.all Char.isAlphanum

def checkModifiers (raw : String) (modifiers : List String) : Except FieldError Unit :=
  match modifiers.find? (· != uniqueModifier) with
  | some modifier => .error (.modifierUnknown modifier raw)
  | none => .ok ()

/-- The trimmed values between commas, blank ones left out. -/
def parseValues (s : String) : List String :=
  ((split (· == ',') s.toList).map trim).filter (!·.isEmpty) |>.map String.ofList

def parseEnum (raw : String) (base : Field) (rest : List String) : Except FieldError Field := do
  let segment := rest.headD ""
  let values := if segment == uniqueModifier then [] else parseValues segment
  if values.isEmpty then .error (.valuesMissing base.name)
  checkModifiers raw rest.tail
  return { base with type := .enum, enumValues := some values }

def parseReference (raw : String) (base : Field) (rest : List String) :
    Except FieldError Field := do
  let target := rest.headD ""
  if target.isEmpty || target == uniqueModifier then .error (.targetMissing base.name)
  if !isModelName target then .error (.targetMalformed target base.name)
  checkModifiers raw rest.tail
  return { base with type := .reference, target := some target }

def parseScalar (raw token : String) (base : Field) (rest : List String) :
    Except FieldError Field := do
  let some type := typeTokens.lookup token | .error (.typeUnknown token)
  checkModifiers raw rest
  return { base with type }

/-- Reads one field definition. -/
def parse (raw : String) : Except FieldError Field := do
  let segments := splitAt ':' raw
  let (name, nameNullable) := stripNullable (segments.headD "")
  let (written, typeNullable) := stripNullable (segments.tail.headD "")
  let rest := segments.tail.tail
  if name.isEmpty then .error (.nameMissing raw)
  if !isFieldName name then .error (.nameMalformed name)
  let token :=
    if written.isEmpty || written == uniqueModifier then FieldType.string.name else written
  let base : Field :=
    { name, nullable := nameNullable || typeNullable
      unique := segments.tail.contains uniqueModifier }
  if token == enumToken then parseEnum raw base rest
  else if token == referencesToken then parseReference raw base rest
  else parseScalar raw token base rest

/-- Reads a list of definitions, up to the first fault. -/
def parseAll (raws : List String) : Except FieldError (List Field) := raws.mapM parse

end Field
end SchemaScaffold
