import SchemaScaffold.Source.Scan

/-!
Table and enum declarations. A table is declared by a call of one of the three table functions with
the table's name as a literal; its block is the `const` statement around that call. Names are looked
for in the masked text, so that comments declare nothing; blocks are cut out of the raw text.
-/

namespace SchemaScaffold.Source

open Text

def tableFunctions : List String := ["mysqlTable", "pgTable", "sqliteTable"]

def tableFunction? (cs : List Char) : Option (List Char) :=
  tableFunctions.findSome? fun name => dropText? name.toList cs

/-- An opening parenthesis, blanks before it. -/
def openCall? (cs : List Char) : Option (List Char) := dropText? ['('] (skipBlanks cs)

/-- The table call at the start of a text: the declared name, and what follows it. -/
def tableCall? (cs : List Char) : Option (List Char × List Char) := do
  let cs ← tableFunction? cs
  let cs ← openCall? cs
  quoted? isQuote (skipBlanks cs)

theorem tableFunction?_length {cs rest : List Char} (h : tableFunction? cs = some rest) :
    rest.length ≤ cs.length := by
  obtain ⟨name, _, hd⟩ := List.exists_of_findSome?_eq_some h
  have := dropText?_length hd
  omega

theorem tableCall?_length {cs name rest : List Char} (h : tableCall? cs = some (name, rest)) :
    rest.length < cs.length := by
  simp only [tableCall?, Option.bind_eq_bind, Option.bind_eq_some_iff] at h
  obtain ⟨a, ha, b, hb, hq⟩ := h
  have h1 := tableFunction?_length ha
  have h2 := dropText?_length hb
  have h3 := quoted?_length hq
  have k1 := dropWhile_length_le isBlank a
  have k2 := dropWhile_length_le isBlank b
  simp only [skipBlanks] at *
  omega

/-- The names of the table calls in a masked text, in order. -/
def callNames : List Char → List (List Char)
  | [] => []
  | c :: cs =>
    match h : tableCall? (c :: cs) with
    | some (name, rest) =>
      have := tableCall?_length h
      name :: callNames rest
    | none => callNames cs
termination_by cs => cs.length
decreasing_by
  · assumption
  · exact Nat.lt_succ_self _

/-- The tables that a text declares, in order. -/
def tableNames (source : List Char) : List String := (callNames (mask source)).map String.ofList

/-- A call argument that is the literal `name`. -/
def namedArgument? (name cs : List Char) : Option (List Char) := do
  let cs ← openCall? cs
  let cs ← quote? isQuote (skipBlanks cs)
  let cs ← dropText? name cs
  quote? isQuote cs

/-- Whether a text starts with a table call for `name`. -/
def callsTable (name cs : List Char) : Bool :=
  ((tableFunction? cs).bind (namedArgument? name)).isSome

/-- Whether a text declares a table. -/
def tableExists (source name : List Char) : Bool := anywhere (callsTable name) (mask source)

/-- The words that may introduce a declaration. -/
def skipExport (cs : List Char) : List Char :=
  ((dropText? "export".toList cs).bind blanks?).getD cs

/-- A `const name =` at the start of a line, exported or not: the name, and the value. -/
def constant? (cs : List Char) : Option (List Char × List Char) := do
  let cs ← dropText? "const".toList (skipExport (skipInlineBlanks cs))
  let cs ← blanks? cs
  let (name, cs) ← word? cs
  let cs ← dropText? ['='] (skipBlanks cs)
  some (name, skipBlanks cs)

/-- The parenthesis that opens the declaration of a table, at the start of a line. -/
def tableDeclaration? (name cs : List Char) : Option (List Char) := do
  let (_, cs) ← constant? cs
  let cs ← tableFunction? cs
  let _ ← namedArgument? name cs
  some (skipBlanks cs)

def endsInEnum (word : List Char) : Bool := "Enum".toList.isSuffixOf word

/-- The parenthesis that opens the declaration of an enum variable, at the start of a line. -/
def enumDeclaration? (enumName cs : List Char) : Option (List Char) := do
  let (name, cs) ← constant? cs
  let (function, cs) ← word? cs
  let _ ← openCall? cs
  if name == enumName && endsInEnum function then some (skipBlanks cs) else none

/-- The offsets of a declaration: its line start, and the end of its block. -/
structure Span where
  start : Nat
  stop : Nat
  deriving Repr, DecidableEq

def Span.cut (span : Span) (source : List Char) : List Char :=
  (source.drop span.start).take (span.stop - span.start)

def Span.remove (span : Span) (source : List Char) : List Char :=
  source.take span.start ++ source.drop span.stop

/-- The span of the first declaration that `read` finds in `text`, whose block ends where it does in
`source`; both have the same length. -/
def declarationSpan (read : List Char → Option (List Char)) (text source : List Char) :
    Except SourceError (Option Span) :=
  match atLineStart? read true text with
  | none => .ok none
  | some (start, rest) =>
    (blockEnd source (text.length - rest.length)).map fun stop => some { start, stop }

/-- The span of a table's declaration; a table that is called but not declared is an error. -/
def locateTable (source name : List Char) : Except SourceError (Option Span) :=
  if !tableExists source name then .ok none
  else
    match declarationSpan (tableDeclaration? name) (mask source) source with
    | .error e => .error e
    | .ok none => .error (.notLocated (String.ofList name))
    | .ok (some span) => .ok (some span)

/-- The text of a table's declaration. -/
def tableBlock? (source name : List Char) : Except SourceError (Option (List Char)) :=
  (locateTable source name).map fun span? => span?.map (·.cut source)

/-- The variables that end in `Enum` and are called in a block, each once. -/
def enumVariables (block : List Char) : List (List Char) :=
  ((words block).filterMap fun (word, after) =>
    if endsInEnum word && 4 < word.length && (openCall? after).isSome then some word else none)
    |>.eraseDups

def mentions (word source : List Char) : Bool := (words source).any (·.1 == word)

/-- Removes the declaration of an enum variable, unless the rest of the text still mentions it. -/
def removeEnum (source enumName : List Char) : Except SourceError (List Char) := do
  let some span ← declarationSpan (enumDeclaration? enumName) source source | return source
  let remaining := span.remove source
  return if mentions enumName remaining then source else remaining

/-- Runs of three or more line breaks become two. The number counts the breaks just kept. -/
def squeezeBreaks : Nat → List Char → List Char
  | _, [] => []
  | kept, c :: cs =>
    if c == '\n' then
      if kept < 2 then c :: squeezeBreaks (kept + 1) cs else squeezeBreaks kept cs
    else c :: squeezeBreaks 0 cs

/-- Removes the declaration of a table, and the enum declarations that only it used. -/
def removeTable (source name : List Char) : Except SourceError (List Char) := do
  let some span ← locateTable source name | return source
  let result ← (enumVariables (span.cut source)).foldlM removeEnum (span.remove source)
  return squeezeBreaks 0 result

end SchemaScaffold.Source
