import SchemaScaffold.Decimal.Binary64
import SchemaScaffold.Text.Utf16

/-!
JSON values. Integers are exact and apart from floating-point numbers, texts are kept in UTF-16
units, and a record keeps its entries in order.
-/

namespace SchemaScaffold.Json

inductive Value
  | null
  | bool (b : Bool)
  | integer (n : Int)
  | float (x : Decimal.Binary64)
  | text (units : List UInt16)
  | list (items : List Value)
  | record (entries : List (List UInt16 × Value))

/-- The entries of a record. -/
abbrev Entries := List (List UInt16 × Value)

def key (s : String) : List UInt16 := Text.unitsOf s.toList

namespace Entries

def get? (entries : Entries) (k : List UInt16) : Option Value := entries.lookup k

/-- Sets an entry: in its place if it is there, else at the end. -/
def set (entries : Entries) (k : List UInt16) (v : Value) : Entries :=
  match entries with
  | [] => [(k, v)]
  | (k', v') :: rest => if k' == k then (k', v) :: rest else (k', v') :: Entries.set rest k v

end Entries

/-- Null, false, zero and the empty text, list and record count as not given. -/
def Value.isGiven : Value → Bool
  | .null => false
  | .bool b => b
  | .integer n => n != 0
  | .float (.finite _ mantissa _) => mantissa != 0
  | .float _ => true
  | .text units => !units.isEmpty
  | .list items => !items.isEmpty
  | .record entries => !entries.isEmpty

/-- A value that has not the shape that its place asks for. -/
inductive ShapeError
  | notRecord
  | notText
  deriving Repr, DecidableEq

/-- The entries of a record; any other value has none to look up. -/
def Value.entries : Value → Except ShapeError Entries
  | .record entries => .ok entries
  | _ => .error .notRecord

/-- An entry that may be left out or not given, as a record. -/
def Entries.subrecord (entries : Entries) (name : String) : Except ShapeError Entries :=
  match entries.get? (key name) with
  | some v => if v.isGiven then v.entries else .ok []
  | none => .ok []

end SchemaScaffold.Json
