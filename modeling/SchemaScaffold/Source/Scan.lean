import SchemaScaffold.Source.Bracket
import SchemaScaffold.Text.Search
import SchemaScaffold.Text.WordChar

/-!
Reading a piece of a statement at the start of a text. Each reader takes what it names and gives the
rest, or nothing if the text starts otherwise.
-/

namespace SchemaScaffold.Source

open Text

def skipBlanks (cs : List Char) : List Char := cs.dropWhile isBlank

/-- At least one blank, and all that follow it. -/
def blanks? (cs : List Char) : Option (List Char) :=
  if cs.head?.any isBlank then some (skipBlanks cs) else none

/-- A whole word. -/
def word? (cs : List Char) : Option (List Char × List Char) :=
  if cs.head?.any isWordChar then some (cs.takeWhile isWordChar, cs.dropWhile isWordChar) else none

/-- One quote of those allowed. -/
def quote? (allowed : Char → Bool) : List Char → Option (List Char)
  | [] => none
  | c :: cs => if allowed c then some cs else none

/-- Everything between two allowed quotes, which is not empty and holds none of them. -/
def quoted? (allowed : Char → Bool) (cs : List Char) : Option (List Char × List Char) := do
  let cs ← quote? allowed cs
  let text := cs.takeWhile (!allowed ·)
  let rest ← quote? allowed (cs.dropWhile (!allowed ·))
  if text.isEmpty then none else some (text, rest)

theorem dropText?_length {expected cs rest : List Char} (h : dropText? expected cs = some rest) :
    rest.length + expected.length = cs.length := by
  fun_induction dropText? expected cs with
  | case1 => grind
  | case2 => simp at h
  | case3 _ _ _ _ _ ih => have := ih h; simp only [List.length_cons]; omega
  | case4 => simp at h

theorem dropWhile_length_le (p : Char → Bool) (cs : List Char) :
    (cs.dropWhile p).length ≤ cs.length :=
  (List.dropWhile_sublist p).length_le

theorem skipChar_length_le (c : Char) (cs : List Char) : (skipChar c cs).length ≤ cs.length := by
  cases cs with
  | nil => simp [skipChar]
  | cons d cs => simp only [skipChar]; split <;> simp

theorem quote?_length {allowed : Char → Bool} {cs rest : List Char}
    (h : quote? allowed cs = some rest) : rest.length < cs.length := by
  cases cs with
  | nil => simp [quote?] at h
  | cons c cs => grind [quote?]

theorem quoted?_length {allowed : Char → Bool} {cs text rest : List Char}
    (h : quoted? allowed cs = some (text, rest)) : rest.length < cs.length := by
  simp only [quoted?, Option.bind_eq_bind, Option.bind_eq_some_iff] at h
  obtain ⟨opened, h1, closed, h2, h3⟩ := h
  have := quote?_length h1
  have := quote?_length h2
  have := dropWhile_length_le (!allowed ·) opened
  grind

/-- The first line start at which `read` succeeds: its offset, and what `read` leaves. The flag
tells whether the text itself starts a line. -/
def atLineStart? (read : List Char → Option (List Char)) :
    Bool → List Char → Option (Nat × List Char)
  | _, [] => none
  | lineStart, c :: cs =>
    match if lineStart then read (c :: cs) else none with
    | some rest => some (0, rest)
    | none => (atLineStart? read (c == '\n') cs).map fun (offset, rest) => (offset + 1, rest)

/-- Whether `test` holds at some position of the text. -/
def anywhere (test : List Char → Bool) : List Char → Bool
  | [] => false
  | c :: cs => test (c :: cs) || anywhere test cs

/-- The words of a text, each with what follows it. -/
def words : List Char → List (List Char × List Char)
  | [] => []
  | c :: cs =>
    if isWordChar c then
      have := dropWhile_length_le isWordChar cs
      (c :: cs.takeWhile isWordChar, cs.dropWhile isWordChar) :: words (cs.dropWhile isWordChar)
    else words cs
termination_by cs => cs.length
decreasing_by
  all_goals simp only [List.length_cons]
  all_goals omega

end SchemaScaffold.Source
