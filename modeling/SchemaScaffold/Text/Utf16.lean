/-!
Texts as UTF-16 units. A unit sequence can hold a lone surrogate, which no string can, so a text
that may come from escapes is kept in units.
-/

namespace SchemaScaffold.Text

/-- The units of a character: one, or a surrogate pair above U+FFFF. -/
def charUnits (c : Char) : List UInt16 :=
  if c.toNat < 0x10000 then [c.toNat.toUInt16]
  else
    let n := c.toNat - 0x10000
    [(0xD800 + n / 0x400).toUInt16, (0xDC00 + n % 0x400).toUInt16]

def unitsOf (cs : List Char) : List UInt16 := cs.flatMap charUnits

def isHighSurrogate (u : UInt16) : Bool := 0xD800 ≤ u && u < 0xDC00

def isLowSurrogate (u : UInt16) : Bool := 0xDC00 ≤ u && u < 0xE000

/-- The characters of a unit sequence; a lone surrogate reads as the replacement character. -/
def charsOf : List UInt16 → List Char
  | [] => []
  | [u] => [unitChar u]
  | u :: v :: us =>
    if isHighSurrogate u && isLowSurrogate v then
      Char.ofNat (0x10000 + (u.toNat - 0xD800) * 0x400 + (v.toNat - 0xDC00)) :: charsOf us
    else unitChar u :: charsOf (v :: us)
where
  unitChar (u : UInt16) : Char :=
    if isHighSurrogate u || isLowSurrogate u then '\uFFFD' else Char.ofNat u.toNat

end SchemaScaffold.Text
