import SchemaScaffold.Text.Ranges
import SchemaScaffold.Text.WordChar.Table

/-!
The characters of a word in source code: letters, digits and other numeric characters of every
script, and the underscore. A word is a maximal run of them.
-/

namespace SchemaScaffold.Text

def isWordChar (c : Char) : Bool :=
  if c.toNat < 128 then c.isAlphanum || c == '_' else inRanges WordChar.ranges c

end SchemaScaffold.Text
