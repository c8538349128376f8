import SchemaScaffold.Naming.Words

/-!
Singular and plural of English nouns, as used in names. Only the last word of a compound is
inflected; words without a plural stay, irregular nouns go through a table, and the rest follow
their endings. A rule reads the word in lower case and cuts the word as written.
-/

namespace SchemaScaffold.Naming

open Text

def irregularPlurals : List (String × String) := [
  ("person", "people"), ("child", "children"), ("man", "men"), ("woman", "women"),
  ("mouse", "mice"), ("goose", "geese"), ("tooth", "teeth"), ("foot", "feet")]

def irregularSingulars : List (String × String) :=
  irregularPlurals.map fun (one, many) => (many, one)

def uncountable : List String :=
  ["equipment", "information", "news", "series", "species", "sheep", "fish", "data"]

/-- A capital with small letters and digits only from there to the end of the line. -/
def isLastCapital (c : Char) (after : List Char) : Bool :=
  c.isUpper && (chomp after).1.all isLowerOrDigit

/-- Splits a compound name before its last word; without a last capital it stays whole. -/
def splitAtLastCapital : List Char → Option (List Char × List Char)
  | [] => none
  | c :: cs =>
    match splitAtLastCapital cs with
    | some (head, word) => some (c :: head, word)
    | none => if isLastCapital c cs then some ([], c :: cs) else none

/-- What comes before the last word of a name, and that word. -/
def splitLastWord (cs : List Char) : List Char × List Char :=
  (splitAtLastCapital cs).getD ([], cs)

/-- Gives `word` the capital first letter of `model`. -/
def matchCase (model : List Char) (word : String) : List Char :=
  if model.head?.any Char.isUpper then capitalize word.toList else word.toList

def endsWith (ending : String) (cs : List Char) : Bool := ending.toList.isSuffixOf cs

def isVowel (c : Char) : Bool := "aeiou".toList.contains c

/-- A `y` at the end of the line, with a character before it that is no vowel. -/
def endsInConsonantY (cs : List Char) : Bool :=
  match (chomp cs).1.reverse with
  | 'y' :: c :: _ => !isVowel c
  | _ => false

/-- The endings after which a plural takes `es`. -/
def takesEs (cs : List Char) : Bool := ["s", "x", "z", "ch", "sh"].any (endsWith · cs)

/-- The plurals in `es`, read to the end of the line. -/
def endsInEs (cs : List Char) : Bool :=
  ["sses", "xes", "zes", "ches", "shes", "uses"].any (endsWith · (chomp cs).1)

/-- The endings in `s` of a singular. -/
def singularInS (cs : List Char) : Bool := ["ss", "us", "is"].any (endsWith · cs)

def dropLast (n : Nat) (cs : List Char) : List Char := cs.take (cs.length - n)

def pluralChars (cs : List Char) : List Char :=
  let (head, word) := splitLastWord cs
  let low := lower word
  let key := String.ofList low
  if low.isEmpty || uncountable.contains key || (irregularSingulars.lookup key).isSome then cs
  else
    match irregularPlurals.lookup key with
    | some many => head ++ matchCase word many
    | none =>
      if endsInConsonantY low then head ++ dropLast 1 word ++ "ies".toList
      else if takesEs low then head ++ word ++ "es".toList
      else head ++ word ++ "s".toList

def singularChars (cs : List Char) : List Char :=
  let (head, word) := splitLastWord cs
  let low := lower word
  let key := String.ofList low
  if low.isEmpty || uncountable.contains key || (irregularPlurals.lookup key).isSome then cs
  else
    match irregularSingulars.lookup key with
    | some one => head ++ matchCase word one
    | none =>
      if endsWith "ies" low && 3 < low.length then head ++ dropLast 3 word ++ "y".toList
      else if endsWith "ouses" low then head ++ dropLast 1 word
      else if endsInEs low then head ++ dropLast 2 word
      else if endsWith "s" low && !singularInS low then head ++ dropLast 1 word
      else cs

/-- The plural of the last word of a name. -/
def plural (s : String) : String := String.ofList (pluralChars s.toList)

/-- The singular of the last word of a name. -/
def singular (s : String) : String := String.ofList (singularChars s.toList)

/-- The variable that holds the table of a model: its plural in camel case, whichever number the
name is given in. -/
def tableVariable (model : String) : String := camelCase (plural (singular model))

end SchemaScaffold.Naming
