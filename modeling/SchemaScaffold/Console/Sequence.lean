/-!
Control sequences of a terminal: an escape character and a bracket, parameters, and the letter that
says what to do. A confirmation asks without them.
-/

namespace SchemaScaffold.Console

def isParameter (c : Char) : Bool := c == ';' || c == '?' || c.isDigit

/-- What follows the control sequence at the start of a text. -/
def dropSequence? : List Char → Option (List Char)
  | '\x1b' :: '[' :: cs =>
    match cs.dropWhile isParameter with
    | c :: rest => if c.isAlpha then some rest else none
    | [] => none
  | _ => none

theorem dropSequence?_length {cs rest : List Char} (h : dropSequence? cs = some rest) :
    rest.length < cs.length := by
  unfold dropSequence? at h
  split at h
  · rename_i cs
    split at h
    · rename_i c more hm
      have h1 := congrArg List.length hm
      have h2 := (List.dropWhile_sublist isParameter (l := cs)).length_le
      grind
    · simp at h
  · simp at h

/-- Leaves the control sequences of a text out. -/
def plainChars : List Char → List Char
  | [] => []
  | c :: cs =>
    match h : dropSequence? (c :: cs) with
    | some rest =>
      have := dropSequence?_length h
      plainChars rest
    | none => c :: plainChars cs
termination_by cs => cs.length
decreasing_by
  · assumption
  · exact Nat.lt_succ_self _

def withoutSequences (s : String) : String := String.ofList (plainChars s.toList)

end SchemaScaffold.Console
