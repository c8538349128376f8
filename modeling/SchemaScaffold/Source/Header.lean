import SchemaScaffold.Source.Scan

/-!
The header of a text: the blank and comment lines before anything else. Every line of it is blank or
holds one comment; a block comment may run over several lines, and its end must end a line.
-/

namespace SchemaScaffold.Source

open Text

/-- What follows the line, if nothing but inline blanks is left of it. -/
def lineEnd? (cs : List Char) : Option (List Char) :=
  match skipInlineBlanks cs with
  | [] => some []
  | c :: cs => if c == '\n' then some cs else none

/-- What follows the line on which a block comment ends, given the text after its opener: the first
closing mark that ends a line. -/
def commentLineEnd? : List Char → Option (List Char)
  | [] => none
  | c :: cs =>
    match if c == '*' then (dropText? ['/'] cs).bind lineEnd? else none with
    | some rest => some rest
    | none => commentLineEnd? cs

/-- What follows the blank or comment line at the start of a text. -/
def headerLine? (cs : List Char) : Option (List Char) :=
  match skipInlineBlanks cs with
  | '/' :: '/' :: rest => lineEnd? (rest.dropWhile (· != '\n'))
  | '/' :: '*' :: rest => commentLineEnd? rest
  | rest => lineEnd? rest

/-- What follows the header. The number bounds the count of lines. -/
def afterHeaderLines : Nat → List Char → List Char
  | 0, cs => cs
  | lines + 1, cs =>
    if cs.isEmpty then cs
    else
      match headerLine? cs with
      | some rest => afterHeaderLines lines rest
      | none => cs

/-- What follows the header; a text has fewer lines than characters. -/
def afterHeader (cs : List Char) : List Char := afterHeaderLines cs.length cs

def header (cs : List Char) : List Char := cs.take (cs.length - (afterHeader cs).length)

end SchemaScaffold.Source
