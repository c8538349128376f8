/-! Sets of characters given as inclusive ranges of code points. -/

namespace SchemaScaffold.Text

/-- Whether a code point lies in one of the ranges. -/
def inRanges (ranges : List (Nat × Nat)) (c : Char) : Bool :=
  ranges.any fun (first, last) => first ≤ c.toNat && c.toNat ≤ last

end SchemaScaffold.Text
