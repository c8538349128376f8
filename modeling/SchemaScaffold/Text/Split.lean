/-!
Cutting a text at separators. `split` keeps the empty pieces, so joining gives the text back;
`fields` drops them, so it lists the maximal runs between separators.
-/

namespace SchemaScaffold.Text

/-- The pieces between separators: one more than there are separators. -/
def split (isSeparator : Char → Bool) : List Char → List (List Char)
  | [] => [[]]
  | c :: cs =>
    if isSeparator c then [] :: split isSeparator cs
    else
      match split isSeparator cs with
      | [] => [[c]]
      | first :: others => (c :: first) :: others

/-- The non-empty pieces between separators. -/
def fields (isSeparator : Char → Bool) (cs : List Char) : List (List Char) :=
  (split isSeparator cs).filter fun piece => !piece.isEmpty

/-- The pieces of a string between occurrences of one character. -/
def splitAt (separator : Char) (s : String) : List String :=
  (split (· == separator) s.toList).map String.ofList

/-- Takes one final line break off: what stands before it, and the break if there is one. -/
def chomp (cs : List Char) : List Char × List Char :=
  if cs.getLast? == some '\n' then (cs.dropLast, ['\n']) else (cs, [])

end SchemaScaffold.Text
