import SchemaScaffold.Console.Display
import SchemaScaffold.Text.Lines

/-!
Boxes drawn on the console: a panel around lines of text, as wide as the console, and a grid of two
columns, as wide as its content where the console has room for it.
-/

namespace SchemaScaffold.Console

open Text

def repeated (n : Nat) (c : Char) : String := String.ofList (List.replicate n c)

/-- A text in the middle of a number of columns; an odd column goes to the right. -/
def centered (columns : Nat) (fill : Char) (s : String) : String :=
  let free := columns - width s.toList
  repeated (free / 2) fill ++ s ++ repeated (free - free / 2) fill

def padded (columns : Nat) (s : String) : String := String.ofList (padEnd columns s.toList)

/-- The lines of a text between two blanks, if there is room for more than those. -/
def paddedLines (overflow : Overflow) (columns : Nat) (s : String) : List String :=
  if columns ≤ 2 then []
  else (layOut overflow (columns - 2) s).map fun line => " " ++ padded (columns - 2) line ++ " "

/-- Markup under a title, framed to the width of the console. -/
def panel (columns : Nat) (title body : String) : String :=
  let title := String.ofList (crop (columns - 4) (" " ++ title ++ " ").toList)
  unlines (
    ["╭" ++ centered (columns - 2) '─' title ++ "╮"] ++
    (paddedLines .chop (columns - 2) (render body)).map (fun line => "│" ++ line ++ "│") ++
    ["╰" ++ repeated (columns - 2) '─' ++ "╯"])

/-- Half of a number, or the even one of the two next to it. -/
def halfToEven (n : Nat) : Nat := n / 2 + n % 2 * (n / 2 % 2)

/-- The widths of two columns that have to share a limit. The wider one gives way until they are
equal, then both do. -/
def shareColumns (limit a b : Nat) : Nat × Nat :=
  let a := min a limit
  let b := min b limit
  let excess := a + b - limit
  let a' := a - min excess (a - b)
  let b' := b - min excess (b - a)
  let excess := a' + b' - limit
  (a' - halfToEven excess, b' - (excess - halfToEven excess))

/-- The lines of two cells side by side. -/
def rowLines (bar : String) (first second : Nat) (cells : String × String) : List String :=
  let left := paddedLines .cut first cells.1
  let right := paddedLines .cut second cells.2
  (List.range (max 1 (max left.length right.length))).map fun i =>
    bar ++ left[i]?.getD (repeated first ' ') ++ bar ++ right[i]?.getD (repeated second ' ') ++ bar

/-- Rows of two cells under a title and a head, each column as wide as its widest cell, or as the
console allows. -/
def grid (columns : Nat) (title : String) (head : String × String) (rows : List (String × String)) :
    String :=
  let rows := rows.map fun (a, b) => (render a, render b)
  let widest (cells : List String) : Nat := (cells.map fun s => width s.toList).foldl max 0
  let (first, second) :=
    shareColumns (columns - 3) (widest (head.1 :: rows.map (·.1)) + 2)
      (widest (head.2 :: rows.map (·.2)) + 2)
  let whole := first + second + 3
  let line (left middle right : String) (fill : Char) : String :=
    left ++ repeated first fill ++ middle ++ repeated second fill ++ right
  unlines (
    (layOut .chop whole title).map (fun line =>
      centered whole ' ' (String.ofList (trimEnd line.toList))) ++
    [line "┏" "┳" "┓" '━'] ++ rowLines "┃" first second head ++ [line "┡" "╇" "┩" '━'] ++
    rows.flatMap (rowLines "│" first second) ++
    [line "└" "┴" "┘" '─'])

end SchemaScaffold.Console
