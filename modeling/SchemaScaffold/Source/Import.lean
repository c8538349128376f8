import SchemaScaffold.Source.Imports
import SchemaScaffold.Source.Scan
import SchemaScaffold.Text.Split

/-!
Import statements of a schema text: `import { a, b } from "module";`, each at the start of a line.
Gathering them gives the import table; stripping them leaves every other character in place.
-/

namespace SchemaScaffold.Source

open Text

/-- An import statement as written: the text between its braces, and its module. -/
structure ImportStatement where
  list : List Char
  module : List Char
  /-- Whether the statement took its line break along. -/
  endsLine : Bool
  deriving Repr, DecidableEq

def isImportQuote (c : Char) : Bool := c == '"' || c == '\x27'

/-- The import statement at the start of a line, with its semicolon, blanks and line break. -/
def importAt? (cs : List Char) : Option (ImportStatement × List Char) := do
  let cs ← dropText? "import".toList (skipInlineBlanks cs)
  let cs ← dropText? ['{'] (skipBlanks cs)
  let list := cs.takeWhile (· != '}')
  let cs ← dropText? ['}'] (cs.dropWhile (· != '}'))
  let cs ← dropText? "from".toList (skipBlanks cs)
  let (module, cs) ← quoted? isImportQuote (skipBlanks cs)
  let cs := skipInlineBlanks (skipChar ';' cs)
  some ({ list, module, endsLine := cs.head? == some '\n' }, skipChar '\n' cs)

theorem importAt?_length {cs rest : List Char} {statement : ImportStatement}
    (h : importAt? cs = some (statement, rest)) : rest.length < cs.length := by
  simp only [importAt?, Option.bind_eq_bind, Option.bind_eq_some_iff] at h
  obtain ⟨a, ha, b, hb, c, hc, d, hd, ⟨m, e⟩, he, hrest⟩ := h
  have h1 := dropText?_length ha
  have h2 := dropText?_length hb
  have h3 := dropText?_length hc
  have h4 := dropText?_length hd
  have h5 := quoted?_length he
  have k1 := dropWhile_length_le isInlineBlank cs
  have k2 := dropWhile_length_le isBlank a
  have k3 := dropWhile_length_le (· != '}') b
  have k4 := dropWhile_length_le isBlank c
  have k5 := dropWhile_length_le isBlank d
  have k6 := skipChar_length_le ';' e
  have k7 := dropWhile_length_le isInlineBlank (skipChar ';' e)
  have k8 := skipChar_length_le '\n' (skipInlineBlanks (skipChar ';' e))
  simp only [Option.some.injEq, Prod.mk.injEq] at hrest
  simp only [skipInlineBlanks, skipBlanks] at *
  have : 0 < "import".toList.length := by decide
  grind

/-- The import statement at the start of a text, if the text starts a line. -/
def importHere? (lineStart : Bool) (cs : List Char) : Option (ImportStatement × List Char) :=
  if lineStart then importAt? cs else none

theorem importHere?_length {lineStart : Bool} {cs rest : List Char} {statement : ImportStatement}
    (h : importHere? lineStart cs = some (statement, rest)) : rest.length < cs.length := by
  cases lineStart with
  | true => exact importAt?_length h
  | false => cases h

/-- The import statements of a text, and the text without them. The flag tells whether the text
starts a line. -/
def splitImports (lineStart : Bool) : List Char → List ImportStatement × List Char
  | [] => ([], [])
  | c :: cs =>
    match h : importHere? lineStart (c :: cs) with
    | some (statement, rest) =>
      have := importHere?_length h
      let (statements, kept) := splitImports statement.endsLine rest
      (statement :: statements, kept)
    | none =>
      let (statements, kept) := splitImports (c == '\n') cs
      (statements, c :: kept)
termination_by cs => cs.length
decreasing_by
  · assumption
  · exact Nat.lt_succ_self _

/-- The symbols of an import list, with their inner blanks collapsed. -/
def importSymbols (list : List Char) : List String :=
  let symbol (piece : List Char) : String :=
    " ".intercalate ((fields isBlank piece).map String.ofList)
  ((split (· == ',') list).map symbol).filter (!·.isEmpty)

/-- The import table of a text. -/
def extractImports (cs : List Char) : Imports :=
  (splitImports true cs).1.foldl (fun imports statement =>
    imports.add (String.ofList statement.module) (importSymbols statement.list)) []

/-- The text without its import statements. -/
def stripImports (cs : List Char) : List Char := (splitImports true cs).2

end SchemaScaffold.Source
