import SchemaScaffold.Text.Blank
import SchemaScaffold.Text.LetterCase
import SchemaScaffold.Text.Split

/-!
The words of a name and its spellings. A name splits at hyphens, underscores and blanks, before a
capital that follows a small letter or digit, and before the last capital of an acronym that a small
letter follows. Every spelling is the same words, cased and joined in its own way.
-/

namespace SchemaScaffold.Naming

open Text

def isLowerOrDigit (c : Char) : Bool := c.isLower || c.isDigit

/-- Whether a word starts at `c`, told by the characters on both sides of it. -/
def startsWord (before c : Char) (after : Option Char) : Bool :=
  c.isUpper && (isLowerOrDigit before || (before.isUpper && after.any Char.isLower))

/-- Puts a space before every capital that starts a word. -/
def separate : List Char → List Char
  | a :: b :: cs =>
    if startsWord a b cs.head? then a :: ' ' :: separate (b :: cs) else a :: separate (b :: cs)
  | cs => cs

def isSeparator (c : Char) : Bool := c == '-' || c == '_' || isBlank c

def words (s : String) : List (List Char) := fields isSeparator (separate s.toList)

def joinWords (separator : String) (ws : List (List Char)) : String :=
  separator.intercalate (ws.map String.ofList)

/-- Writes `blog post` as `blogPost`. -/
def camelCase (s : String) : String :=
  match words s with
  | [] => ""
  | first :: others => joinWords "" (lower first :: others.map capitalize)

/-- Writes `blog post` as `BlogPost`. -/
def pascalCase (s : String) : String := joinWords "" ((words s).map capitalize)

/-- Writes `BlogPost` as `blog_post`. -/
def snakeCase (s : String) : String := joinWords "_" ((words s).map lower)

/-- Writes `BlogPost` as `blog-post`. -/
def kebabCase (s : String) : String := joinWords "-" ((words s).map lower)

/-- Writes `BlogPost` as the label `Blog Post`. -/
def humanize (s : String) : String := joinWords " " ((words s).map capitalize)

end SchemaScaffold.Naming
