import SchemaScaffold.Decimal.Shortest
import SchemaScaffold.Json.Value
import SchemaScaffold.Text.Quoted

/-!
Writing JSON: two spaces of indentation a level, one entry a line, every unit outside ASCII as an
escape, and the shortest text of a floating-point number.
-/

namespace SchemaScaffold.Json

open Text

/-- A unit inside a literal. -/
def unitText (u : UInt16) : List Char :=
  if u < 0x7F then jsonChar (Char.ofNat u.toNat) else unicodeEscape u.toNat

def literalText (units : List UInt16) : List Char := '"' :: units.flatMap unitText ++ ['"']

def integerText (n : Int) : List Char :=
  (if n < 0 then ['-'] else []) ++ Nat.toDigits 10 n.natAbs

def lineBreak (level : Nat) : List Char := '\n' :: List.replicate (2 * level) ' '

mutual

/-- A value that stands at a level of indentation. -/
def valueText (level : Nat) : Value → List Char
  | .null => "null".toList
  | .bool true => "true".toList
  | .bool false => "false".toList
  | .integer n => integerText n
  | .float x => x.text
  | .text units => literalText units
  | .list [] => ['[', ']']
  | .list (item :: items) =>
    '[' :: lineBreak (level + 1) ++ valueText (level + 1) item ++ itemsText (level + 1) items ++
      lineBreak level ++ [']']
  | .record [] => ['{', '}']
  | .record ((k, v) :: entries) =>
    '{' :: lineBreak (level + 1) ++ literalText k ++ [':', ' '] ++ valueText (level + 1) v ++
      entriesText (level + 1) entries ++ lineBreak level ++ ['}']

/-- The further items of a list. -/
def itemsText (level : Nat) : List Value → List Char
  | [] => []
  | item :: items => ',' :: lineBreak level ++ valueText level item ++ itemsText level items

/-- The further entries of a record. -/
def entriesText (level : Nat) : List (List UInt16 × Value) → List Char
  | [] => []
  | (k, v) :: entries =>
    ',' :: lineBreak level ++ literalText k ++ [':', ' '] ++ valueText level v ++
      entriesText level entries

end

def render (v : Value) : String := String.ofList (valueText 0 v)

end SchemaScaffold.Json
