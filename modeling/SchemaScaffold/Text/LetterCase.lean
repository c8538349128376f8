import SchemaScaffold.Text.LetterCase.Context
import SchemaScaffold.Text.LetterCase.Table
import SchemaScaffold.Text.Ranges

/-!
Upper and lower case of a text by the full case maps: one character may become several, and a
capital sigma at the end of a word becomes the final form. On ASCII both maps move the twenty-six
letters and nothing else.
-/

namespace SchemaScaffold.Text.LetterCase

/-- The image of a character under the first run that holds it. -/
def shift? (runs : List (Nat × Nat × Nat × Int)) (c : Char) : Option Char :=
  runs.findSome? fun (first, last, stride, offset) =>
    if first ≤ c.toNat && c.toNat ≤ last && (c.toNat - first) % stride == 0 then
      some (Char.ofNat (c.toNat + offset).toNat)
    else none

def special? (specials : List (Nat × List Nat)) (c : Char) : Option (List Char) :=
  (specials.lookup c.toNat).map (·.map Char.ofNat)

def mapped (specials : List (Nat × List Nat)) (runs : List (Nat × Nat × Nat × Int))
    (c : Char) : List Char :=
  match special? specials c with
  | some cs => cs
  | none => [(shift? runs c).getD c]

def isCased (c : Char) : Bool := inRanges casedRanges c

def isIgnorable (c : Char) : Bool := inRanges ignorableRanges c

end LetterCase

open LetterCase

def upperChar (c : Char) : List Char :=
  if c.toNat < 128 then [c.toUpper] else mapped upperSpecials upperRuns c

def lowerChar (c : Char) : List Char :=
  if c.toNat < 128 then [c.toLower] else mapped lowerSpecials lowerRuns c

def upper (cs : List Char) : List Char := cs.flatMap upperChar

/-- Lower case of what follows, told whether the nearest counting character before it has case. -/
def lowerAfter : Bool → List Char → List Char
  | _, [] => []
  | letterBefore, c :: cs =>
    let next := if isIgnorable c then letterBefore else isCased c
    if c == 'Σ' then
      let letterAfter := (cs.dropWhile isIgnorable).head?.any isCased
      (if letterBefore && !letterAfter then 'ς' else 'σ') :: lowerAfter next cs
    else lowerChar c ++ lowerAfter next cs

def lower (cs : List Char) : List Char := lowerAfter false cs

/-- The text with its first character in upper case. -/
def capitalize : List Char → List Char
  | [] => []
  | c :: cs => upperChar c ++ cs

end SchemaScaffold.Text
