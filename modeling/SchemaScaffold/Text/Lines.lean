import SchemaScaffold.Text.Split

/-!
The lines of a text. A line feed, a carriage return, and the two together are one line break each;
reading a text makes line feeds of them all, and its last line need not be ended.
-/

namespace SchemaScaffold.Text

/-- Makes a line feed of every line break. -/
def lineFeeds : List Char → List Char
  | [] => []
  | '\r' :: '\n' :: cs => '\n' :: lineFeeds cs
  | c :: cs => (if c == '\r' then '\n' else c) :: lineFeeds cs

def withLineFeeds (s : String) : String := String.ofList (lineFeeds s.toList)

/-- The lines of a text, without their ends. -/
def lines (s : String) : List String :=
  let pieces := splitAt '\n' (withLineFeeds s)
  if pieces.getLast? == some "" then pieces.dropLast else pieces

/-- Every line, each ended by a line feed. -/
def unlines (lines : List String) : String :=
  lines.foldr (fun line rest => line ++ "\n" ++ rest) ""

end SchemaScaffold.Text
