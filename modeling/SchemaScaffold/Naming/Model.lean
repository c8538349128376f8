import SchemaScaffold.Naming.Inflection

/-!
The names of one model. Everything that is generated for a model takes its name from here, so the
table, the route directory and the page component always agree.
-/

namespace SchemaScaffold.Naming

/-- All spellings of a model's name, in both numbers. -/
structure ModelNames where
  name : String
  singularName : String
  pluralName : String
  pascalName : String
  pascalPlural : String
  camelName : String
  camelPlural : String
  snakeName : String
  snakePlural : String
  kebabName : String
  kebabPlural : String
  tableName : String
  deriving Repr, DecidableEq

/-- Derives every spelling from the singular of the name. -/
def ModelNames.of (name : String) : ModelNames :=
  let one := singular name
  let many := plural one
  { name, singularName := one, pluralName := many
    pascalName := pascalCase one, pascalPlural := pascalCase many
    camelName := camelCase one, camelPlural := camelCase many
    snakeName := snakeCase one, snakePlural := snakeCase many
    kebabName := kebabCase one, kebabPlural := kebabCase many
    tableName := snakeCase many }

/-- Words that would clash with the generated modules themselves. -/
def reservedModelNames : List String := ["model", "schema", "db", "database", "table"]

inductive ModelNameError
  | missing
  | malformed (name : String)
  | reserved (name : String)
  deriving Repr, DecidableEq

def ModelNameError.message : ModelNameError → String
  | .missing => "Model name is required"
  | .malformed name => "Invalid model name \"" ++ name ++
      "\". Must start with a letter and contain only letters and numbers."
  | .reserved name => "\"" ++ name ++ "\" is a reserved word and cannot be used as a model name."

/-- A letter, then letters and digits, then at most one line break. -/
def isModelName (s : String) : Bool :=
  match (Text.chomp s.toList).1 with
  | [] => false
  | c :: cs => c.isAlpha && cs.all Char.isAlphanum

def validateModelName (name : String) : Except ModelNameError Unit :=
  if name.isEmpty then .error .missing
  else if !isModelName name then .error (.malformed name)
  else if reservedModelNames.contains (String.ofList (Text.lower name.toList)) then
    .error (.reserved name)
  else .ok ()

end SchemaScaffold.Naming
