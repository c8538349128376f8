import SchemaScaffold.Text.Ranges

/-!
Blank characters. Beside space and the ASCII controls from tab to carriage return, the four
information separators, the next-line control and every Unicode space count as blank; a zero-width
space does not. Trimming and splitting a text into words follow this one class.
-/

namespace SchemaScaffold.Text

def blankRanges : List (Nat × Nat) := [
  (0x09, 0x0D), (0x1C, 0x20), (0x85, 0x85), (0xA0, 0xA0), (0x1680, 0x1680), (0x2000, 0x200A),
  (0x2028, 0x2029), (0x202F, 0x202F), (0x205F, 0x205F), (0x3000, 0x3000)]

def isBlank (c : Char) : Bool := inRanges blankRanges c

/-- The blanks that stay within a line of code: space and tab. -/
def isInlineBlank (c : Char) : Bool := c == ' ' || c == '\t'

def trimStart (cs : List Char) : List Char := cs.dropWhile isBlank

def trimEnd (cs : List Char) : List Char := (cs.reverse.dropWhile isBlank).reverse

def trim (cs : List Char) : List Char := trimEnd (trimStart cs)

/-- A text that trims to nothing. -/
def allBlank (cs : List Char) : Bool := cs.all isBlank

end SchemaScaffold.Text
