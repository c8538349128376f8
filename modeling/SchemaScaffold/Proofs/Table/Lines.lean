import SchemaScaffold.Proofs.Source.Breaks
import SchemaScaffold.Proofs.Source.Starts
import SchemaScaffold.Proofs.Table.Pieces
import SchemaScaffold.Proofs.Text.Literals

/-!
The lines of a table. A declaration shows on the first line of its statement only; the column lines
and the end of the block come to a colon or a brace before any equals sign.
-/

namespace SchemaScaffold

open Source Naming Text

/-! ## Reading a statement -/

theorem isWordChar_of_isAlphanum {c : Char} (h : c.isAlphanum = true) : isWordChar c = true := by
  simp [isWordChar, isAlphanum_ascii h, h]

theorem not_isBlank_of_isAlphanum {c : Char} (h : c.isAlphanum = true) : isBlank c = false :=
  alphanum_forall (p := fun c => isBlank c = false) (by decide) h

theorem skipBlanks_of_head {cs : List Char} (h : ∀ c, cs.head? = some c → isBlank c = false) :
    skipBlanks cs = cs := by
  cases cs with
  | nil => rfl
  | cons c cs => simp [skipBlanks, h c rfl]

theorem word?_name {name : List Char} (hname : ∀ c ∈ name, isWordChar c = true) (hne : name ≠ [])
    {rest : List Char} (hrest : ∀ c, rest.head? = some c → isWordChar c = false) :
    word? (name ++ rest) = some (name, rest) := by
  have htake : rest.takeWhile isWordChar = [] ∧ rest.dropWhile isWordChar = rest := by
    cases rest with
    | nil => exact ⟨rfl, rfl⟩
    | cons c rest => simp [hrest c rfl]
  unfold word?
  rw [List.takeWhile_append_of_pos hname, List.dropWhile_append_of_pos hname, htake.1, htake.2,
    List.append_nil, if_pos]
  cases name with
  | nil => exact absurd rfl hne
  | cons c name => exact hname c (by simp)

/-- An exported constant gives its name and its value. -/
theorem constant?_exported {name : List Char} (hname : ∀ c ∈ name, c.isAlphanum = true)
    (hne : name ≠ []) (value : List Char) :
    constant? ("export const ".toList ++ (name ++ (" = ".toList ++ value))) =
      some (name, skipBlanks value) := by
  have hblanks : blanks? (' ' :: (name ++ (" = ".toList ++ value))) =
      some (name ++ (" = ".toList ++ value)) := by
    have hskip : skipBlanks (name ++ (" = ".toList ++ value)) = name ++ (" = ".toList ++ value) := by
      apply skipBlanks_of_head
      cases name with
      | nil => exact absurd rfl hne
      | cons c name =>
        rintro d ⟨⟩
        exact not_isBlank_of_isAlphanum (hname c (by simp))
    show some (skipBlanks (name ++ (" = ".toList ++ value))) = _
    rw [hskip]
  have hword : word? (name ++ (" = ".toList ++ value)) = some (name, " = ".toList ++ value) :=
    word?_name (fun c hc => isWordChar_of_isAlphanum (hname c hc)) hne (by rintro c ⟨⟩; decide)
  have hconst : dropText? "const".toList (skipExport (skipInlineBlanks ("export const ".toList ++
      (name ++ (" = ".toList ++ value))))) = some (' ' :: (name ++ (" = ".toList ++ value))) := rfl
  have hequals : dropText? ['='] (skipBlanks (" = ".toList ++ value)) = some (' ' :: value) := rfl
  simp only [constant?, hconst, Option.bind_eq_bind, Option.bind_some, hblanks, hword, hequals]
  rfl

/-- Without a name there is no constant. -/
theorem constant?_unnamed (value : List Char) :
    constant? ("export const ".toList ++ ([] ++ (" = ".toList ++ value))) = none := rfl

theorem statement_append (name function arguments rest : List Char) :
    statement name function arguments ++ rest = "export const ".toList ++ (name ++ (" = ".toList ++
      (function ++ '(' :: (arguments ++ (");".toList ++ rest))))) := by
  unfold statement
  rw [List.append_assoc, List.append_assoc, List.append_assoc, List.append_assoc, List.cons_append,
    List.append_assoc]

theorem exports_statement (name function arguments : List Char) :
    Exports (statement name function arguments) :=
  List.prefix_append _ _

/-- A statement declares its name, and its value is the call. -/
theorem constant?_statement {name : List Char} (function arguments : List Char)
    (hname : ∀ c ∈ name, c.isAlphanum = true) (hne : name ≠ [])
    (hfunction : ∀ c, function.head? = some c → isBlank c = false) (rest : List Char) :
    constant? (statement name function arguments ++ rest) =
      some (name, function ++ '(' :: (arguments ++ (");".toList ++ rest))) := by
  rw [statement_append, constant?_exported hname hne, skipBlanks_of_head]
  cases function with
  | nil => rintro c ⟨⟩; decide
  | cons c function => exact hfunction

/-! ## Literals and columns -/

theorem newline_not_mem_jsonLiteral (s : String) : '\n' ∉ (jsonLiteral s).toList :=
  not_mem_jsonLiteral (by decide) (by decide) s

theorem Column.chunk_eq (c : Column) : c.chunk = "  ".toList ++ (c.key.toList ++
    (':' :: (' ' :: (c.expression.toList ++ [','])) ++ ['\n'])) := by
  have hcolon : ": ".toList = [':', ' '] ∧ ",\n".toList = [',', '\n'] := by decide
  simp only [Column.chunk, Column.line, String.toList_append, hcolon, List.append_assoc,
    List.cons_append, List.nil_append, -String.reduceToList]

/-- The line of a column holds its key, with the colon behind it. -/
theorem Column.key_infix_chunk (c : Column) : c.key.toList ++ [':'] <:+: c.chunk := by
  refine ⟨"  ".toList, ' ' :: (c.expression.toList ++ [',']) ++ ['\n'], ?_⟩
  rw [c.chunk_eq]
  simp only [List.append_assoc, List.cons_append, List.nil_append]

theorem isBlank_or_isWordChar {c : Char} (h : isNameChar c = true) :
    isBlank c = true ∨ isWordChar c = true :=
  nameChar_forall (p := fun c => isBlank c = true ∨ isWordChar c = true) (by decide) h

namespace Definition

variable (d : Definition)

theorem newline_not_mem_expression {c : Column} (hc : c ∈ d.table.columns) :
    '\n' ∉ c.expression.toList := by
  have hpieces : Piecewise (fun s => '\n' ∉ s) (enumValues d.fields) :=
    { append := fun ha hb => by simp [ha, hb]
      plain := not_mem_of_plain (by decide)
      literal := fun value _ => newline_not_mem_jsonLiteral value }
  exact d.piecewise_expression hpieces hc

/-- The line of a column comes to its colon before anything else but its name. -/
theorem skips_chunk {α : Type} {read : List Char → Option α} (hread : StopsAt read ':') {c : Column}
    (hc : c ∈ d.table.columns) : Skips read c.chunk := by
  have hkey := (Field.isFieldName_chars (d.key_isFieldName hc)).1
  rw [c.chunk_eq, ← List.append_assoc]
  refine hread.line ?_ ?_
  · rw [List.forall_mem_append]
    exact ⟨forall_blank_or_word (by decide), fun x hx => isBlank_or_isWordChar (hkey x hx)⟩
  · simp [d.newline_not_mem_expression hc]

/-- The block after its first line. -/
def closing : List Char := d.table.columns.flatMap Column.chunk ++ "\x7d);\n".toList

theorem skips_closing {α : Type} {read : List Char → Option α} (hcolon : StopsAt read ':')
    (hbrace : StopsAt read '\x7d') : Skips read d.closing := by
  refine (Skips.flatMap fun c hc => d.skips_chunk hcolon hc).append ?_
  have hend : Skips read ([] ++ ('\x7d' :: ");".toList ++ ['\n'])) := hbrace.line (by simp) (by decide)
  exact hend

theorem silent_closing : Silent d.closing :=
  d.skips_closing (stopsAt_constant? (by decide) (by decide) (by decide))
    (stopsAt_constant? (by decide) (by decide) (by decide))

/-- The first line of the block. -/
def firstLine : List Char :=
  "export const ".toList ++ (d.table.exportName.toList ++ (" = ".toList ++ (d.table.function.toList ++
    ("(\"".toList ++ (d.table.name.toList ++ "\", \x7b".toList)))))

theorem block_eq : d.table.renderBlock.toList ++ ['\n'] = d.firstLine ++ ['\n'] ++ d.closing := by
  have hopen : "(\"".toList = '(' :: "\"".toList := by decide
  have hbrace : "\", \x7b\n".toList = "\", \x7b".toList ++ ['\n'] := by decide
  have hend : "\x7d);\n".toList = '\x7d' :: (");".toList ++ ['\n']) := by decide
  rw [d.renderBlock_eq, statement_append]
  unfold Table.arguments firstLine closing
  simp only [hopen, hbrace, hend, List.append_assoc, List.cons_append, List.nil_append,
    -String.reduceToList]

theorem newline_not_mem_firstLine : '\n' ∉ d.firstLine := by
  unfold firstLine
  refine not_mem_of_plain (by decide) ?_
  simp only [List.all_append, Bool.and_eq_true]
  exact ⟨by decide, plain_alphanum d.exportName_chars, by decide, d.function_plain, by decide,
    plain_snake d.name_chars, by decide⟩

/-- A block has no blank lines. -/
theorem paragraph_block : Paragraph (d.table.renderBlock.toList ++ ['\n']) := by
  have hplain : ∀ {s : List Char}, s.all isPlain = true → '\n' ∉ s := not_mem_of_plain (by decide)
  have hpieces : Piecewise (Unpaired '\n' '\n') (enumValues d.fields) :=
    { append := Unpaired.append
      plain := fun h => unpaired_of_not_mem (hplain h)
      literal := fun value _ => unpaired_of_not_mem (newline_not_mem_jsonLiteral value) }
  exact ⟨d.piecewise_block hpieces fun hne h => (paragraph_line (hplain h) hne).unpaired,
    List.suffix_append _ _⟩

end Definition
end SchemaScaffold
