import SchemaScaffold.Text.Enclosed
import SchemaScaffold.Text.Search

/-!
The tokens of a JSON text: marks, string literals as written, numbers and named values. Where no
token starts, a `bad` token ends the sequence.
-/

namespace SchemaScaffold.Json

open Text

/-- A number as written. -/
structure NumberText where
  negative : Bool
  whole : List Char
  fraction : List Char := []
  /-- Sign and digits of the power of ten. -/
  power : Option (Bool × List Char) := none
  deriving Repr, DecidableEq

inductive Token
  /-- A bracket, a comma or a colon. -/
  | mark (c : Char)
  /-- A string literal, with its closing quote. -/
  | string (body : List Char)
  | number (n : NumberText)
  | name (s : String)
  | bad
  deriving Repr, DecidableEq

/-- The named values; the last three extend the format by special numbers. -/
def valueNames : List String := ["null", "true", "false", "NaN", "Infinity", "-Infinity"]

def isJsonBlank (c : Char) : Bool := c == ' ' || c == '\t' || c == '\n' || c == '\r'

def isMark (c : Char) : Bool := "[]{},:".toList.contains c

/-- A point and at least one digit. -/
def fraction? : List Char → Option (List Char × List Char)
  | '.' :: d :: cs =>
    if d.isDigit then some (d :: cs.takeWhile Char.isDigit, cs.dropWhile Char.isDigit) else none
  | _ => none

/-- The sign of a power of ten, which may be left out. -/
def powerSign : List Char → Bool × List Char
  | '-' :: cs => (true, cs)
  | '+' :: cs => (false, cs)
  | cs => (false, cs)

/-- The letter, a sign or none, and at least one digit. -/
def power? : List Char → Option ((Bool × List Char) × List Char)
  | c :: cs =>
    let (negative, digits) := powerSign cs
    if (c == 'e' || c == 'E') && digits.head?.any Char.isDigit then
      some ((negative, digits.takeWhile Char.isDigit), digits.dropWhile Char.isDigit)
    else none
  | [] => none

/-- The digits before the point: a zero alone, or digits that do not start with one. -/
def whole? : List Char → Option (List Char × List Char)
  | '0' :: cs => some (['0'], cs)
  | c :: cs =>
    if c.isDigit then some (c :: cs.takeWhile Char.isDigit, cs.dropWhile Char.isDigit) else none
  | [] => none

/-- The longest number at the start of a text. -/
def number? (cs : List Char) : Option (NumberText × List Char) := do
  let negative := cs.head? == some '-'
  let (whole, cs) ← whole? (if negative then cs.tail else cs)
  let (fraction, cs) := (fraction? cs).getD ([], cs)
  match power? cs with
  | some (power, cs) => some ({ negative, whole, fraction, power := some power }, cs)
  | none => some ({ negative, whole, fraction }, cs)

def name? (cs : List Char) : Option (String × List Char) :=
  valueNames.findSome? fun s => (dropText? s.toList cs).map fun rest => (s, rest)

/-- The token at the start of a text that does not start with a blank. -/
def token? (c : Char) (cs : List Char) : Option (Token × List Char) :=
  if isMark c then some (.mark c, cs)
  else if c == '"' then (closeLiteral? '"' false cs).map fun (body, rest) => (.string body, rest)
  else
    match name? (c :: cs) with
    | some (s, rest) => some (.name s, rest)
    | none => (number? (c :: cs)).map fun (n, rest) => (.number n, rest)

/-- The tokens of a text. The number bounds their count. -/
def tokensUpTo : Nat → List Char → List Token
  | 0, _ => []
  | count + 1, cs =>
    match cs.dropWhile isJsonBlank with
    | [] => []
    | c :: cs =>
      match token? c cs with
      | some (t, rest) => t :: tokensUpTo count rest
      | none => [.bad]

/-- The tokens of a text, no more than its characters. -/
def tokens (cs : List Char) : List Token := tokensUpTo cs.length cs

end SchemaScaffold.Json
