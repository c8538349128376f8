import SchemaScaffold.Json.Token
import SchemaScaffold.Json.Value

/-!
Reading JSON. Of two entries of one name the later value counts, in the earlier place. An integer of
more than 4300 digits and a value nested too deeply are refused as such; every other fault makes the
text malformed.
-/

namespace SchemaScaffold.Json

open Text

inductive ReadError
  | malformed
  | integerTooLong
  | nestedTooDeeply
  deriving Repr, DecidableEq

def hexValue? (c : Char) : Option Nat :=
  if c.isDigit then some (c.toNat - 48)
  else if 'a' ≤ c && c ≤ 'f' then some (c.toNat - 87)
  else if 'A' ≤ c && c ≤ 'F' then some (c.toNat - 55)
  else none

/-- The value of four hexadecimal digits. -/
def hexUnit? (a b c d : Char) : Option UInt16 := do
  return ((((← hexValue? a) * 16 + (← hexValue? b)) * 16 + (← hexValue? c)) * 16 +
    (← hexValue? d)).toUInt16

/-- The character that a one-letter escape stands for. -/
def escaped? : Char → Option Char
  | '"' => some '"'
  | '\\' => some '\\'
  | '/' => some '/'
  | 'b' => some '\x08'
  | 'f' => some '\x0c'
  | 'n' => some '\n'
  | 'r' => some '\r'
  | 't' => some '\t'
  | _ => none

/-- The units that the body of a literal stands for, up to its closing quote. -/
def literalUnits? : List Char → Option (List UInt16)
  | [] => none
  | ['"'] => some []
  | '\\' :: 'u' :: a :: b :: c :: d :: cs => do
    return (← hexUnit? a b c d) :: (← literalUnits? cs)
  | '\\' :: c :: cs => do
    return charUnits (← escaped? c) ++ (← literalUnits? cs)
  | c :: cs => do
    if c.toNat < 32 || c == '"' || c == '\\' then none
    return charUnits c ++ (← literalUnits? cs)

def digitsValue (digits : List Char) : Nat := Nat.ofDigitChars 10 digits 0

namespace NumberText

def isInteger (n : NumberText) : Bool := n.fraction.isEmpty && n.power.isNone

/-- The power of ten as a number. -/
def powerValue (n : NumberText) : Int :=
  match n.power with
  | some (true, digits) => -(digitsValue digits : Int)
  | some (false, digits) => digitsValue digits
  | none => 0

def value (n : NumberText) : Except ReadError Value :=
  if n.isInteger then
    if 4300 < n.whole.length then .error .integerTooLong
    else
      let size : Int := digitsValue n.whole
      .ok (.integer (if n.negative then -size else size))
  else
    .ok (.float (.ofDecimal n.negative (digitsValue (n.whole ++ n.fraction))
      (n.powerValue - n.fraction.length)))

end NumberText

def namedValue (s : String) : Value :=
  match s with
  | "true" => .bool true
  | "false" => .bool false
  | "NaN" => .float .nan
  | "Infinity" => .float (.infinite false)
  | "-Infinity" => .float (.infinite true)
  | _ => .null

def literal (body : List Char) : Except ReadError (List UInt16) :=
  match literalUnits? body with
  | some units => .ok units
  | none => .error .malformed

/-- How deeply lists and records may be nested. -/
def nestingLimit : Nat := 970

/-- The levels that are left inside a list or a record. -/
def inside : Nat → Except ReadError Nat
  | 0 => .error .nestedTooDeeply
  | levels + 1 => .ok levels

mutual

/-- One value at the start of a token sequence. The numbers bound the calls and the levels. -/
def readValue : Nat → Nat → List Token → Except ReadError (Value × List Token)
  | 0, _, _ => .error .malformed
  | n + 1, levels, tokens =>
    match tokens with
    | .mark '[' :: rest => do
      let levels ← inside levels
      match rest with
      | .mark ']' :: rest => return (.list [], rest)
      | _ =>
        let (items, rest) ← readItems n levels rest
        return (.list items, rest)
    | .mark '{' :: rest => do
      let levels ← inside levels
      match rest with
      | .mark '}' :: rest => return (.record [], rest)
      | _ =>
        let (entries, rest) ← readEntries n levels [] rest
        return (.record entries, rest)
    | .string body :: rest => do return (.text (← literal body), rest)
    | .number number :: rest => do return (← number.value, rest)
    | .name s :: rest => .ok (namedValue s, rest)
    | _ => .error .malformed

/-- The values up to the end of a list. -/
def readItems : Nat → Nat → List Token → Except ReadError (List Value × List Token)
  | 0, _, _ => .error .malformed
  | n + 1, levels, tokens => do
    let (item, rest) ← readValue n levels tokens
    match rest with
    | .mark ',' :: rest =>
      let (items, rest) ← readItems n levels rest
      return (item :: items, rest)
    | .mark ']' :: rest => return ([item], rest)
    | _ => .error .malformed

/-- The entries up to the end of a record, after those read before. -/
def readEntries : Nat → Nat → Entries → List Token → Except ReadError (Entries × List Token)
  | 0, _, _, _ => .error .malformed
  | n + 1, levels, entries, tokens => do
    match tokens with
    | .string body :: .mark ':' :: rest =>
      let k ← literal body
      let (v, rest) ← readValue n levels rest
      let entries := entries.set k v
      match rest with
      | .mark ',' :: rest => readEntries n levels entries rest
      | .mark '}' :: rest => return (entries, rest)
      | _ => .error .malformed
    | _ => .error .malformed

end

/-- Reads a whole text as one value. -/
def parse (s : String) : Except ReadError Value := do
  let tokens := tokens s.toList
  let (v, rest) ← readValue (2 * tokens.length + 1) nestingLimit tokens
  if rest.isEmpty then return v else .error .malformed

end SchemaScaffold.Json
