import SchemaScaffold.Source.Lexeme
import SchemaScaffold.Text.Blank

/-!
Where a bracketed block ends. The three kinds of bracket nest, string literals and comments are
skipped, and a block takes along its semicolon and the rest of an otherwise empty line.
-/

namespace SchemaScaffold.Source

open Text

/-- Why a schema text cannot be read. -/
inductive SourceError
  | unterminatedString
  | unterminatedComment
  | unterminatedBlock
  | unbalanced (bracket : Char)
  | notLocated (table : String)
  deriving Repr, DecidableEq

def SourceError.message : SourceError → String
  | .unterminatedString => "unterminated string literal in schema source"
  | .unterminatedComment => "unterminated comment in schema source"
  | .unterminatedBlock => "unterminated block in schema source"
  | .unbalanced bracket => "unbalanced '" ++ bracket.toString ++ "' in schema source"
  | .notLocated table =>
    "table \"" ++ table ++ "\" is declared but its block could not be located"

/-- What follows a string literal, given the text after its opening quote. A backslash escapes any
character; a line break ends the search except in a backtick literal. -/
def skipString? (quote : Char) : List Char → Option (List Char)
  | [] => none
  | ['\\'] => none
  | '\\' :: _ :: cs => skipString? quote cs
  | c :: cs =>
    if c == quote then some cs
    else if c == '\n' && !isMultiline quote then none
    else skipString? quote cs

theorem skipString?_length {quote : Char} {cs rest : List Char}
    (h : skipString? quote cs = some rest) : rest.length < cs.length := by
  fun_induction skipString? quote cs with
  | case1 => simp at h
  | case2 => simp at h
  | case3 _ cs ih => have := ih h; simp only [List.length_cons]; omega
  | case4 => grind
  | case5 => simp at h
  | case6 c cs _ _ _ _ ih => have := ih h; simp only [List.length_cons]; omega

/-- What follows a block comment, given the text after its opener. -/
def skipComment? (cs : List Char) : Option (List Char) := (closeComment? cs).map (·.2)

theorem skipComment?_length {cs rest : List Char} (h : skipComment? cs = some rest) :
    rest.length ≤ cs.length := by
  obtain ⟨⟨body, r⟩, hb, he⟩ := Option.map_eq_some_iff.mp h
  have := congrArg List.length (closeComment?_append hb)
  simp only [List.length_append] at this
  grind

/-- The bracket that closes an opening bracket. -/
def closer? : Char → Option Char
  | '(' => some ')'
  | '[' => some ']'
  | '{' => some '}'
  | _ => none

def isCloser (c : Char) : Bool := c == ')' || c == ']' || c == '}'

/-- What follows the bracket that empties the stack of awaited closers. -/
def closeBlock (awaited : List Char) : List Char → Except SourceError (List Char)
  | [] => .error .unterminatedBlock
  | c :: cs =>
    if isQuote c then
      match h : skipString? c cs with
      | none => .error .unterminatedString
      | some rest =>
        have := skipString?_length h
        closeBlock awaited rest
    else if c == '/' && cs.head? == some '/' then
      have := (List.dropWhile_sublist (· != '\n') (l := cs)).length_le
      closeBlock awaited (cs.dropWhile (· != '\n'))
    else if c == '/' && cs.head? == some '*' then
      match h : skipComment? cs.tail with
      | none => .error .unterminatedComment
      | some rest =>
        have := skipComment?_length h
        closeBlock awaited rest
    else
      match closer? c with
      | some close => closeBlock (close :: awaited) cs
      | none =>
        if isCloser c then
          match awaited with
          | [] => .error (.unbalanced c)
          | expected :: outer =>
            if expected != c then .error (.unbalanced c)
            else if outer.isEmpty then .ok cs
            else closeBlock outer cs
        else closeBlock awaited cs
termination_by cs => cs.length
decreasing_by
  all_goals simp_all only [List.length_cons, List.length_tail]
  all_goals omega

def skipInlineBlanks (cs : List Char) : List Char := cs.dropWhile Text.isInlineBlank

/-- The text without `c` at its start, if it starts with it. -/
def skipChar (c : Char) : List Char → List Char
  | [] => []
  | d :: cs => if d == c then cs else d :: cs

/-- Blanks, a semicolon, blanks and a line break, as far as they are there. -/
def skipTerminator (cs : List Char) : List Char :=
  skipChar '\n' (skipInlineBlanks (skipChar ';' (skipInlineBlanks cs)))

/-- What follows the block that starts at the first bracket of the text. -/
def afterBlock (cs : List Char) : Except SourceError (List Char) :=
  (closeBlock [] cs).map skipTerminator

/-- The offset just past the block that starts at the first bracket from `start` on. -/
def blockEnd (source : List Char) (start : Nat) : Except SourceError Nat :=
  (afterBlock (source.drop start)).map fun rest => source.length - rest.length

end SchemaScaffold.Source
