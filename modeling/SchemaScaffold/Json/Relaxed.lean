import SchemaScaffold.Text.Blank
import SchemaScaffold.Text.Enclosed

/-!
Relaxed JSON: comments, and a comma before a closing bracket. Strict JSON is what remains without
them. Both passes take a string literal whole, so that nothing inside one is touched.
-/

namespace SchemaScaffold.Json

open Text

/-- A string literal at the start of a text, given what follows its opening quote. -/
def stringLiteral? (cs : List Char) : Option (List Char × List Char) := closeLiteral? '"' true cs

theorem stringLiteral?_length {cs body rest : List Char}
    (h : stringLiteral? cs = some (body, rest)) : rest.length ≤ cs.length := by
  have := congrArg List.length (closeLiteral?_append h)
  simp only [List.length_append] at this
  omega

/-- What follows the comment that a slash opens, if it opens one. -/
def afterComment? : List Char → Option (List Char)
  | '/' :: cs => some (cs.dropWhile (· != '\n'))
  | '*' :: cs => (closeComment? cs).map (·.2)
  | _ => none

theorem afterComment?_length {cs rest : List Char} (h : afterComment? cs = some rest) :
    rest.length ≤ cs.length := by
  unfold afterComment? at h
  split at h
  · rename_i cs
    have := (List.dropWhile_sublist (· != '\n') (l := cs)).length_le
    grind
  · rename_i cs
    obtain ⟨⟨body, r⟩, hb, he⟩ := Option.map_eq_some_iff.mp h
    have := congrArg List.length (closeComment?_append hb)
    simp only [List.length_append] at this
    grind
  · simp at h

/-- The text without its comments. -/
def dropComments : List Char → List Char
  | [] => []
  | c :: cs =>
    if c == '"' then
      match h : stringLiteral? cs with
      | some (body, rest) =>
        have := stringLiteral?_length h
        c :: body ++ dropComments rest
      | none => c :: dropComments cs
    else if c == '/' then
      match h : afterComment? cs with
      | some rest =>
        have := afterComment?_length h
        dropComments rest
      | none => c :: dropComments cs
    else c :: dropComments cs
termination_by cs => cs.length
decreasing_by all_goals simp only [List.length_cons]; omega

def isClosingBracket (c : Char) : Bool := c == '}' || c == ']'

/-- The text without the commas that only blanks part from a closing bracket. -/
def dropTrailingCommas : List Char → List Char
  | [] => []
  | c :: cs =>
    if c == '"' then
      match h : stringLiteral? cs with
      | some (body, rest) =>
        have := stringLiteral?_length h
        c :: body ++ dropTrailingCommas rest
      | none => c :: dropTrailingCommas cs
    else if c == ',' && (trimStart cs).head?.any isClosingBracket then dropTrailingCommas cs
    else c :: dropTrailingCommas cs
termination_by cs => cs.length
decreasing_by all_goals simp only [List.length_cons]; omega

/-- Comments go first, since one may stand between a comma and its bracket. -/
def strict (s : String) : String :=
  String.ofList (dropTrailingCommas (dropComments s.toList))

end SchemaScaffold.Json
