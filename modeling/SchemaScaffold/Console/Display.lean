import SchemaScaffold.Console.Markup
import SchemaScaffold.Text.Split
import SchemaScaffold.Text.Width

/-!
How a text is laid out on the console. Control characters that would move the cursor are left out,
tabs are filled up to the next stop, and a line that is wider than the console is broken between
words, or inside a word that no line can hold.
-/

namespace SchemaScaffold.Console

open Text

/-- The controls that are never shown: bell, backspace, vertical tab, form feed, carriage return. -/
def isHidden (c : Char) : Bool := [7, 8, 11, 12, 13].contains c.toNat

/-- The distance between two tab stops. -/
def tabSize : Nat := 8

/-- Joins the pieces of a line between its tabs, from a column on. A tab is one space, and as many
more as reach the next stop. -/
def fillTabs (column : Nat) : List (List Char) → List Char
  | [] => []
  | [last] => last
  | piece :: pieces =>
    let column := column + width (piece ++ [' '])
    let gap := (tabSize - column % tabSize) % tabSize
    piece ++ [' '] ++ List.replicate gap ' ' ++ fillTabs (column + gap) pieces

def expandTabs (line : List Char) : List Char := fillTabs 0 (split (· == '\t') line)

/-- The words of a line, each with the blanks after it, the first with those before it too. -/
def wordsWithBlanks (line : List Char) : List (List Char) :=
  match h : line.dropWhile isBlank with
  | [] => []
  | c :: cs =>
    let after := cs.dropWhile (!isBlank ·)
    have : (after.dropWhile isBlank).length < line.length := by
      have h1 := congrArg List.length h
      have h2 := (List.dropWhile_sublist isBlank (l := line)).length_le
      have h3 : after.length ≤ cs.length := (List.dropWhile_sublist (!isBlank ·)).length_le
      have h4 := (List.dropWhile_sublist isBlank (l := after)).length_le
      simp only [List.length_cons] at h1
      omega
    (line.takeWhile isBlank ++ c :: cs.takeWhile (!isBlank ·) ++ after.takeWhile isBlank) ::
      wordsWithBlanks (after.dropWhile isBlank)
termination_by line.length

/-- What becomes of a word that no line can hold. -/
inductive Overflow
  /-- It goes on in the next line. -/
  | chop
  /-- It ends in an ellipsis. -/
  | cut
  deriving Repr, DecidableEq

/-- Distributes words over lines, after one that is begun: its characters, and its columns. The
blanks after a word may stand out, and so may a word that is to be cut. -/
def breakAfter (overflow : Overflow) (columns : Nat) (line : List Char) (used : Nat) :
    List (List Char) → List (List Char)
  | [] => [line]
  | word :: rest =>
    let needed := width (trimEnd word)
    let begun := if line.isEmpty then [] else [line]
    if used + needed ≤ columns then
      breakAfter overflow columns (line ++ word) (used + width word) rest
    else if columns < needed && overflow == .chop then
      let pieces := chop columns word
      let last := pieces.getLast?.getD []
      begun ++ pieces.dropLast ++ breakAfter overflow columns last (width last) rest
    else begun ++ breakAfter overflow columns word (width word) rest

/-- Takes off the blanks that stand out at the end of a line. -/
def trimExcess (columns : Nat) (line : List Char) : List Char :=
  let blanks := (line.reverse.takeWhile isBlank).length
  line.take (line.length - min blanks (line.length - columns))

/-- Takes off what stands out of a line. -/
def Overflow.fit (overflow : Overflow) (columns : Nat) (line : List Char) : List Char :=
  if width line ≤ columns then line
  else
    match overflow with
    | .chop => crop columns line
    | .cut => crop (columns - 1) line ++ ['…']

/-- Breaks a line into lines that fit into a number of columns. -/
def wrap (overflow : Overflow) (columns : Nat) (line : List Char) : List (List Char) :=
  let broken :=
    match wordsWithBlanks line with
    | [] => [line]
    | words => breakAfter overflow columns [] 0 words
  broken.map fun line => overflow.fit columns (trimExcess columns line)

/-- The lines that a text takes on a console. -/
def layOut (overflow : Overflow) (columns : Nat) (s : String) : List String :=
  (split (· == '\n') (s.toList.filter fun c => !isHidden c)).flatMap fun line =>
    (wrap overflow columns (expandTabs line)).map String.ofList

/-- What the console shows of a text that a line need not follow. -/
def shownText (columns : Nat) (s : String) : String := "\n".intercalate (layOut .chop columns s)

/-- What the console shows of markup. -/
def shown (columns : Nat) (markup : String) : String := shownText columns (render markup) ++ "\n"

end SchemaScaffold.Console
