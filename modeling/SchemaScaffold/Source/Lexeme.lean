import SchemaScaffold.Text.Enclosed

/-!
The lexemes that matter for reading a schema: string literals, comments, and single characters for
everything else. A literal or comment that never closes is no lexeme, so its opener stands alone.
Masking blanks the comments out and keeps every offset and line break in place.
-/

namespace SchemaScaffold.Source

open Text

/-- Double quote, single quote and backtick. -/
def isQuote (c : Char) : Bool := c == '"' || c == '\x27' || c == '\x60'

inductive Lexeme
  | char (c : Char)
  | literal (text : List Char)
  | comment (text : List Char)
  deriving Repr, DecidableEq

namespace Lexeme

/-- The characters of the lexeme. -/
def text : Lexeme → List Char
  | .char c => [c]
  | .literal cs => cs
  | .comment cs => cs

/-- The lexeme, with a comment blanked out but for its line breaks. -/
def masked : Lexeme → List Char
  | .comment cs => cs.map fun c => if c == '\n' then c else ' '
  | lexeme => lexeme.text

end Lexeme

/-- Whether a literal may run over several lines. -/
def isMultiline (quote : Char) : Bool := quote == '\x60'

/-- A block comment after its opener, or the opening slash alone. -/
def blockComment (cs : List Char) : Lexeme × List Char :=
  match closeComment? cs with
  | some (body, rest) => (.comment ('/' :: '*' :: body), rest)
  | none => (.char '/', '*' :: cs)

/-- The lexeme that starts with `c`, and what follows it. -/
def next (c : Char) (cs : List Char) : Lexeme × List Char :=
  if isQuote c then
    match closeLiteral? c (isMultiline c) cs with
    | some (body, rest) => (.literal (c :: body), rest)
    | none => (.char c, cs)
  else
    match c, cs with
    | '/', '/' :: cs =>
      (.comment ('/' :: '/' :: cs.takeWhile (· != '\n')), cs.dropWhile (· != '\n'))
    | '/', '*' :: cs => blockComment cs
    | c, cs => (.char c, cs)

/-- A lexeme and what follows it are the text itself. -/
theorem next_text (c : Char) (cs : List Char) : (next c cs).1.text ++ (next c cs).2 = c :: cs := by
  unfold next
  split
  · split
    · rename_i h
      simp [Lexeme.text, closeLiteral?_append h]
    · simp [Lexeme.text]
  · split
    · simp [Lexeme.text, List.takeWhile_append_dropWhile]
    · unfold blockComment
      split
      · rename_i h
        simp [Lexeme.text, closeComment?_append h]
      · simp [Lexeme.text]
    · simp [Lexeme.text]

theorem next_length (c : Char) (cs : List Char) : (next c cs).2.length ≤ cs.length := by
  have h := congrArg List.length (next_text c cs)
  have hpos : 0 < (next c cs).1.text.length := by
    unfold next blockComment
    repeat' split
    all_goals simp [Lexeme.text]
  simp only [List.length_append, List.length_cons] at h
  omega

/-- The lexemes of a text, in order. -/
def lexemes : List Char → List Lexeme
  | [] => []
  | c :: cs => (next c cs).1 :: lexemes (next c cs).2
termination_by cs => cs.length
decreasing_by
  have := next_length c cs
  simp only [List.length_cons]
  omega

/-- The lexemes hold every character. -/
theorem lexemes_text (cs : List Char) : (lexemes cs).flatMap Lexeme.text = cs := by
  fun_induction lexemes cs with
  | case1 => rfl
  | case2 c cs ih => rw [List.flatMap_cons, ih, next_text]

/-- The text with its comments blanked out. -/
def mask (cs : List Char) : List Char := (lexemes cs).flatMap Lexeme.masked

end SchemaScaffold.Source
