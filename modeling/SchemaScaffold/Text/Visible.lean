import SchemaScaffold.Text.Quoted
import SchemaScaffold.Text.Ranges
import SchemaScaffold.Text.Visible.Table

/-!
A text as a quoted literal in which every character can be seen. The quotes are single unless the
text holds single quotes and no double ones; invisible characters are written by their number, in
as few of two, four or eight hexadecimal digits as it needs.
-/

namespace SchemaScaffold.Text

def isVisible (c : Char) : Bool :=
  if c.toNat < 0x7F then 0x20 ≤ c.toNat
  else c.toNat != 0x7F && !inRanges Visible.invisibleRanges c

/-- A number in as many lower-case hexadecimal digits as asked for. -/
def hexDigits : Nat → Nat → List Char
  | 0, _ => []
  | count + 1, n => hexDigits count (n / 16) ++ [hexDigit (n % 16)]

/-- A character by its number. -/
def numberEscape (n : Nat) : List Char :=
  if n < 0x100 then '\\' :: 'x' :: hexDigits 2 n
  else if n < 0x10000 then '\\' :: 'u' :: hexDigits 4 n
  else '\\' :: 'U' :: hexDigits 8 n

/-- A character inside such a literal. -/
def visibleChar (quote c : Char) : List Char :=
  if c == quote || c == '\\' then ['\\', c]
  else if c == '\n' then ['\\', 'n']
  else if c == '\r' then ['\\', 'r']
  else if c == '\t' then ['\\', 't']
  else if isVisible c then [c]
  else numberEscape c.toNat

/-- The quote that needs no escape in a text, if there is one. -/
def quoteFor (cs : List Char) : Char :=
  if cs.contains '\x27' && !cs.contains '"' then '"' else '\x27'

def visibleLiteral (s : String) : String :=
  let quote := quoteFor s.toList
  String.ofList (quote :: s.toList.flatMap (visibleChar quote) ++ [quote])

end SchemaScaffold.Text
