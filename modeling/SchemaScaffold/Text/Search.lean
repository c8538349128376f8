/-! Finding one text inside another. -/

namespace SchemaScaffold.Text

/-- What follows `expected` at the start of a text. -/
def dropText? : List Char → List Char → Option (List Char)
  | [], cs => some cs
  | _ :: _, [] => none
  | e :: expected, c :: cs => if e == c then dropText? expected cs else none

/-- Whether `needle` stands somewhere in the text. -/
def occurs (needle : List Char) : List Char → Bool
  | [] => needle.isEmpty
  | c :: cs => needle.isPrefixOf (c :: cs) || occurs needle cs

/-- Whether one string stands somewhere in another. -/
def occursIn (needle s : String) : Bool := occurs needle.toList s.toList

end SchemaScaffold.Text
