import SchemaScaffold.Text.Ranges
import SchemaScaffold.Text.Width.Table

/-!
How many columns of a console a text takes. A wide character takes two, a mark or a control none,
and any other one. A joiner hides the character after it, and a selector shows the narrow character
before it as a wide picture. A cluster is a character with what adds nothing of its own to it; a
text is cut between clusters only.
-/

namespace SchemaScaffold.Text

/-- The character that joins the one after it to the one before it. -/
def joiner : Char := '\u200d'

/-- The character that selects the picture of the one before it. -/
def pictureSelector : Char := '\ufe0f'

def isControl (c : Char) : Bool := c.toNat < 0x20 || (0x7F ≤ c.toNat && c.toNat < 0xA0)

def charWidth (c : Char) : Nat :=
  if isControl c then 0
  else if c.toNat < 0x300 then 1
  else if inRanges Width.zeroRanges c then 0
  else if inRanges Width.wideRanges c then 2
  else 1

/-- The columns that a selector adds to the character measured last. -/
def pictureGain (measured : Option Char) : Nat :=
  if measured.any (inRanges Width.pictureRanges) then 1 else 0

/-- The columns of a text that follows a measured character. -/
def widthAfter (measured : Option Char) : List Char → Nat
  | [] => 0
  | c :: cs =>
    if c == joiner then
      match cs with
      | [] => 0
      | _ :: rest => widthAfter measured rest
    else if c == pictureSelector then pictureGain measured + widthAfter none cs
    else if charWidth c == 0 then widthAfter measured cs
    else charWidth c + widthAfter (some c) cs

def width (cs : List Char) : Nat := widthAfter none cs

/-- Fills a text up with spaces to a number of columns. -/
def padEnd (columns : Nat) (cs : List Char) : List Char :=
  cs ++ List.replicate (columns - width cs) ' '

/-- What is shown as one character, and its columns. -/
structure Cluster where
  chars : List Char
  columns : Nat
  deriving Repr, DecidableEq

/-- Adds characters to the last of the clusters, which come in reverse; alone they are a cluster
without columns. -/
def joinLast (chars : List Char) (gain : Nat) : List Cluster → List Cluster
  | [] => [{ chars, columns := gain }]
  | last :: before =>
    { chars := last.chars ++ chars, columns := last.columns + gain } :: before

/-- The clusters of a text that follows those of `before`, which come in reverse. -/
def clustersAfter (measured : Option Char) (before : List Cluster) : List Char → List Cluster
  | [] => before.reverse
  | c :: cs =>
    if c == joiner && !before.isEmpty then
      match cs with
      | [] => (joinLast [c] 0 before).reverse
      | d :: rest => clustersAfter measured (joinLast [c, d] 0 before) rest
    else if c == joiner then clustersAfter measured (joinLast [c] 0 before) cs
    else if c == pictureSelector then
      let gain := pictureGain measured
      clustersAfter (if gain == 0 then measured else none) (joinLast [c] gain before) cs
    else if charWidth c == 0 then clustersAfter measured (joinLast [c] 0 before) cs
    else clustersAfter (some c) ({ chars := [c], columns := charWidth c } :: before) cs

def clusters (cs : List Char) : List Cluster := clustersAfter none [] cs

/-- The clusters that fit into a number of columns. A wide one that fits by half is a space. -/
def cropClusters : Nat → List Cluster → List Char
  | _, [] => []
  | 0, _ => []
  | columns, cluster :: rest =>
    if cluster.columns ≤ columns then
      cluster.chars ++ cropClusters (columns - cluster.columns) rest
    else [' ']

/-- Cuts a text off after a number of columns. -/
def crop (columns : Nat) (cs : List Char) : List Char :=
  if width cs ≤ columns then cs else cropClusters columns (clusters cs)

/-- The lines of clusters that fill a number of columns each, after one that is begun: its
characters, and the columns it takes. -/
def chopClusters (columns : Nat) (line : List Char) (used : Nat) : List Cluster → List (List Char)
  | [] => if used == 0 then [] else [line]
  | cluster :: rest =>
    if columns < used + cluster.columns then
      line :: chopClusters columns cluster.chars cluster.columns rest
    else chopClusters columns (line ++ cluster.chars) (used + cluster.columns) rest

/-- Chops a text without breaks into lines that fit into a number of columns. -/
def chop (columns : Nat) (cs : List Char) : List (List Char) :=
  chopClusters columns [] 0 (clusters cs)

end SchemaScaffold.Text
