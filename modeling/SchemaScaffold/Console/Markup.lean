import SchemaScaffold.Text.Blank
import SchemaScaffold.Text.Search

/-!
Markup of console text. A tag in brackets such as `[bold]` styles what follows and is not shown, and
a pictograph code such as `:date:` is shown as its picture. A tag with a backslash before it stands
for itself; `escape` prepares a text so that all its tags do.
-/

namespace SchemaScaffold.Console

open Text

/-- The pictograph codes that a field definition can hold. -/
def pictographs : List (String × Char) := [("date", '📅')]

/-- How a code may ask for its picture as text or as a pictograph. -/
def variants : List (String × Char) := [("-text", '\ufe0e'), ("-emoji", '\ufe0f')]

def inCode (c : Char) : Bool := c != ':' && !isBlank c

/-- The name of a code and what follows it, given what follows the first colon. -/
def code? (cs : List Char) : Option (List Char × List Char) :=
  match cs.dropWhile inCode with
  | ':' :: rest => some (cs.takeWhile inCode, rest)
  | _ => none

theorem code?_length {cs name rest : List Char} (h : code? cs = some (name, rest)) :
    rest.length < cs.length := by
  unfold code? at h
  split at h
  · rename_i r hr
    have := congrArg List.length hr
    have := (List.dropWhile_sublist inCode (l := cs)).length_le
    grind
  · simp at h

/-- Splits the wish for a variant off the name of a code. -/
def splitVariant (name : List Char) : List Char × List Char :=
  match variants.find? fun entry => entry.1.toList.isSuffixOf name with
  | some (ending, selector) => (name.take (name.length - ending.toList.length), [selector])
  | none => (name, [])

/-- What a code shows: its picture, or the code itself. -/
def showCode (name : List Char) : List Char :=
  let (base, selector) := splitVariant name
  match pictographs.lookup (String.ofList (base.map Char.toLower)) with
  | some picture => picture :: selector
  | none => ':' :: name ++ [':']

/-- Replaces the codes of a text. -/
def showCodes : List Char → List Char
  | [] => []
  | c :: cs =>
    match h : code? cs with
    | some (name, rest) =>
      have := code?_length h
      if c == ':' then showCode name ++ showCodes rest else c :: showCodes cs
    | none => c :: showCodes cs
termination_by cs => cs.length
decreasing_by all_goals simp only [List.length_cons]; omega

/-- The rest of a tag up to its closing bracket, and what follows it. -/
def tagEnd? : List Char → Option (List Char × List Char)
  | [] => none
  | c :: cs =>
    if c == ']' then some ([c], cs)
    else if c == '[' then none
    else (tagEnd? cs).map fun (body, rest) => (c :: body, rest)

theorem tagEnd?_append {cs body rest : List Char} (h : tagEnd? cs = some (body, rest)) :
    body ++ rest = cs := by
  fun_induction tagEnd? cs generalizing body rest with
  | case1 => simp at h
  | case2 => grind
  | case3 => simp at h
  | case4 c cs _ _ ih =>
    obtain ⟨⟨b, r⟩, hb, he⟩ := Option.map_eq_some_iff.mp h
    have := ih hb
    grind

/-- A tag, and the backslashes before it. -/
structure Tag where
  slashes : Nat
  text : List Char
  deriving Repr, DecidableEq

/-- The characters that tell a tag from other text in brackets. -/
def startsTag (c : Char) : Bool := c.isLower || c == '#' || c == '/' || c == '@'

/-- The tag at the start of a text, and what follows it. -/
def tag? (cs : List Char) : Option (Tag × List Char) :=
  match cs.dropWhile (· == '\\') with
  | '[' :: more =>
    if more.head?.any startsTag then
      (tagEnd? more).map fun (body, rest) =>
        ({ slashes := (cs.takeWhile (· == '\\')).length, text := '[' :: body }, rest)
    else none
  | _ => none

theorem tag?_length {cs rest : List Char} {tag : Tag} (h : tag? cs = some (tag, rest)) :
    rest.length < cs.length := by
  unfold tag? at h
  split at h
  · rename_i more hm
    split at h
    · obtain ⟨⟨b, r⟩, hb, he⟩ := Option.map_eq_some_iff.mp h
      have h1 := congrArg List.length (tagEnd?_append hb)
      have h2 := congrArg List.length hm
      have h3 := (List.dropWhile_sublist (· == '\\') (l := cs)).length_le
      simp only [List.length_append, List.length_cons] at h1 h2
      grind
    · simp at h
  · simp at h

def backslashes (count : Nat) : List Char := List.replicate count '\\'

/-- Puts a backslash before every tag, and doubles those that stand there. -/
def escapeTags : List Char → List Char
  | [] => []
  | c :: cs =>
    match h : tag? (c :: cs) with
    | some (tag, rest) =>
      have := tag?_length h
      backslashes (2 * tag.slashes + 1) ++ tag.text ++ escapeTags rest
    | none => c :: escapeTags cs
termination_by cs => cs.length
decreasing_by
  · assumption
  · exact Nat.lt_succ_self _

/-- The markup of a text to be shown as it is, also with more markup after it: a single backslash at
the end is doubled, lest it meet a bracket. -/
def escape (s : String) : String :=
  let cs := escapeTags s.toList
  match cs.reverse with
  | ['\\'] => String.ofList (cs ++ ['\\'])
  | '\\' :: c :: _ => String.ofList (if c == '\\' then cs else cs ++ ['\\'])
  | _ => String.ofList cs

/-- Drops the backslash before every bracket. -/
def unescape : List Char → List Char
  | '\\' :: '[' :: cs => '[' :: unescape cs
  | c :: cs => c :: unescape cs
  | [] => []

/-- What a stretch without tags shows. -/
def showPlain (cs : List Char) : List Char := showCodes (unescape cs)

/-- What a tag shows: half of its backslashes, and itself if one is left over. -/
def Tag.shown (tag : Tag) : List Char :=
  backslashes (tag.slashes / 2) ++ if tag.slashes % 2 == 1 then showPlain tag.text else []

/-- Shows markup; `plain` is what was read since the last tag, in reverse. -/
def renderAfter (plain : List Char) : List Char → List Char
  | [] => showPlain plain.reverse
  | c :: cs =>
    match h : tag? (c :: cs) with
    | some (tag, rest) =>
      have := tag?_length h
      showPlain plain.reverse ++ tag.shown ++ renderAfter [] rest
    | none => renderAfter (c :: plain) cs
termination_by cs => cs.length
decreasing_by
  · assumption
  · exact Nat.lt_succ_self _

/-- The text that markup stands for. -/
def render (markup : String) : String := String.ofList (renderAfter [] markup.toList)

end SchemaScaffold.Console
