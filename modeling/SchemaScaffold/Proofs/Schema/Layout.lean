import SchemaScaffold.Proofs.Schema.Assembly
import SchemaScaffold.Proofs.Table.Uses

/-!
The shape of a schema that merges and removals have written. Its imports come first, one module a
line; the remark of a setup may follow; then come the tables, a blank line before each. What is read
from such a text can be told from its shape: the tables it reports, where each of them stands, and
its imports.
-/

namespace SchemaScaffold

open Source Naming Text

namespace Schema

/-- What a setup writes below the imports: a blank line and a comment. -/
def remark : List Char :=
  "\n// Scaffold your first CRUD: npx brizzle scaffold post title:string body:text\n".toList

/-! ## The remark -/

theorem endsLine_remark : EndsLine remark := by
  have hparts : remark = remark.dropLast ++ ['\n'] := by decide
  rw [hparts]
  exact endsLine_concat _

/-- Masking leaves two line breaks and the blanks between them. -/
theorem mask_remark (rest : List Char) : mask (remark ++ rest) = mask remark ++ mask rest := by
  refine mask_append ⟨endsLine_remark, fun _ => ?_, fun _ => ?_⟩
  · decide +kernel
  · decide +kernel

theorem silent_remark : Silent remark := by
  have hparts : remark = ['\n'] ++ ([] ++ ('/' :: remark.tail.tail.dropLast ++ ['\n'])) := by decide
  rw [hparts]
  exact silent_break.append (silent_line (by simp) (by decide) (by decide) (by decide) (by decide))

theorem skips_remark : Skips importAt? remark := by
  have hparts : remark = ['\n'] ++ ([] ++ ('/' :: remark.tail.tail.dropLast ++ ['\n'])) := by decide
  rw [hparts]
  refine (skips_break fun _ => rfl).append ?_
  exact (stopsAt_importAt? (by decide) (by decide) (by decide)).line (by simp) (by decide)

theorem silent_mask_remark : Silent (mask remark) := by
  have hmask : mask remark = ['\n'] ++ (blanked remark.tail.dropLast ++ ['\n']) := by decide +kernel
  rw [hmask]
  exact silent_break.append (Skips.line (by decide) fun rest => by
    rw [List.append_assoc]
    exact constant?_blanked (by decide) rest)

theorem passage_mask_remark : Passage callsTableFunction (mask remark) [] :=
  Search.tableFunctions.passage (by decide +kernel)

theorem paragraph_remark : ∃ line, remark = '\n' :: line ∧ Paragraph line := by
  refine ⟨remark.tail, by decide, ?_⟩
  have hparts : remark.tail = remark.tail.dropLast ++ ['\n'] := by decide
  rw [hparts]
  exact paragraph_line (by decide) (by decide)

/-- The remark names no enum. -/
theorem uses_remark {mark : Use → Bool} (hmark : SeeksEnums mark) (b : List Char) :
    (uses (remark ++ b)).filter mark = (uses b).filter mark := by
  have hplace : (follow .between remark).2 = .past "text".toList := by decide +kernel
  have hwords : ((follow .between remark).1.all fun u => !"Enum".toList.isSuffixOf u.1) = true := by
    decide +kernel
  have hnone : (follow .between remark).1.filter mark = [] := by
    refine List.filter_eq_nil_iff.mpr fun u hu hfound => ?_
    have hu := List.all_eq_true.mp hwords u hu
    rw [List.isSuffixOf_iff_suffix.mpr (hmark u hfound)] at hu
    cases hu
  have hlast : ∀ called, ¬ mark ("text".toList, called) = true := fun called hfound =>
    (by decide : ¬ "Enum".toList <:+ "text".toList) (hmark _ hfound)
  rw [uses_eq, uses_eq, usesFrom_append, hplace, usesFrom_past, List.filter_append, hnone,
    List.nil_append, List.filter_cons_of_neg (hlast _)]

/-! ## Layouts -/

/-- Tables that can stand in one schema: under different names, and with different enum variables. -/
structure Harmonious (tables : List Definition) : Prop where
  admissible : ∀ d ∈ tables, d.Admissible
  names : (tables.map (·.table.name)).Nodup
  distinct : ∀ d ∈ tables, d.enumVariables.Nodup
  apart : ∀ d ∈ tables, ∀ e ∈ tables, e.table.name ≠ d.table.name →
    ∀ v ∈ d.enumVariables, v ∉ e.enumVariables

/-- The parts of a schema, in order. Where the last table has been removed, a blank line is left. -/
structure Layout where
  imports : Imports
  remark : List Char
  tables : List Definition
  ending : List Char
  tidy : imports.Tidy
  remarked : remark = [] ∨ remark = Schema.remark
  harmonious : Harmonious tables
  ended : ending = [] ∨ ending = ['\n']

namespace Layout

variable (L : Layout)

/-- What stands above the tables. -/
def top : List Char := L.imports.flatMap Imports.line ++ L.remark

def text : List Char := L.top ++ (L.tables.flatMap Definition.entry ++ L.ending)

/-! ### Above the tables -/

theorem inline_imports : Inline (L.imports.flatMap Imports.line) :=
  inline_flatMap (L.tidy.forall_line fun _ _ h => h.inline_line)

theorem mask_top (rest : List Char) : mask (L.top ++ rest) = mask L.top ++ mask rest := by
  unfold top
  rw [List.append_assoc, mask_inline L.inline_imports, mask_inline L.inline_imports, List.append_assoc]
  rcases L.remarked with h | h <;> rw [h]
  · rw [mask_nil]
    rfl
  · rw [mask_remark]

theorem mask_top_eq : mask L.top = L.imports.flatMap Imports.line ++ mask L.remark :=
  mask_inline L.inline_imports _

theorem silent_imports : Silent (L.imports.flatMap Imports.line) :=
  Skips.flatMap (L.tidy.forall_line fun _ _ h => h.silent_line)

theorem silent_top : Silent L.top := by
  refine L.silent_imports.append ?_
  rcases L.remarked with h | h <;> rw [h]
  · exact .nil
  · exact silent_remark

theorem silent_mask_top : Silent (mask L.top) := by
  rw [L.mask_top_eq]
  refine L.silent_imports.append ?_
  rcases L.remarked with h | h <;> rw [h]
  · rw [mask_nil]
    exact .nil
  · exact silent_mask_remark

theorem passage_imports {mark : Use → Bool} (hmark : Search mark)
    (hsymbols : ∀ dialect, ∀ s ∈ Mapping.moduleSymbols dialect, mark (s.toList, false) = false) :
    Passage mark (L.imports.flatMap Imports.line) [] := by
  have hline := L.tidy.forall_line (P := (Passage mark · [])) fun dialect _ h =>
    h.passage_line hmark (hsymbols dialect)
  have hlines : Passage mark (L.imports.flatMap Imports.line) (L.imports.flatMap fun _ => []) :=
    Passage.flatMap hline
  rwa [List.flatMap_eq_nil_iff.mpr fun _ _ => rfl] at hlines

theorem passage_mask_top : Passage callsTableFunction (mask L.top) [] := by
  rw [L.mask_top_eq]
  refine (L.passage_imports Search.tableFunctions fun _ _ _ => rfl).append_nil ?_
  rcases L.remarked with h | h <;> rw [h]
  · rw [mask_nil]
    exact .nil _
  · exact passage_mask_remark

/-- Above the tables no enum is named. -/
theorem uses_top {mark : Use → Bool} (hmark : SeeksEnums mark)
    (hsymbols : ∀ dialect, ∀ s ∈ Mapping.moduleSymbols dialect, mark (s.toList, false) = false)
    (b : List Char) : (uses (L.top ++ b)).filter mark = (uses b).filter mark := by
  unfold top
  rw [List.append_assoc, (L.passage_imports hmark.search hsymbols).uses_append, List.nil_append]
  rcases L.remarked with h | h <;> rw [h]
  · rfl
  · exact uses_remark hmark b

/-- The imports come first, and there are some. -/
theorem text_cons : ∃ rest, L.text = 'i' :: rest := by
  obtain ⟨entry, imports, himports⟩ := List.exists_cons_of_ne_nil L.tidy.nonempty
  have himport : "import ".toList = 'i' :: "mport ".toList := by decide
  unfold text top
  rw [himports, List.flatMap_cons, Imports.line_eq, himport]
  exact ⟨_, rfl⟩

/-- A layout has no header, so a merge reads all of it. -/
theorem afterHeader_text : afterHeader L.text = L.text := by
  obtain ⟨rest, hrest⟩ := L.text_cons
  have hline : headerLine? ('i' :: rest) = none := rfl
  rw [hrest, afterHeader, List.length_cons, afterHeaderLines, hline]
  rfl

theorem header_text : header L.text = [] := by
  rw [header, L.afterHeader_text, Nat.sub_self, List.take_zero]

theorem not_allBlank_text : allBlank L.text = false := by
  obtain ⟨rest, hrest⟩ := L.text_cons
  rw [hrest]
  rfl

/-! ### The tables of a layout -/

theorem inline_entries (tables : List Definition) : Inline (tables.flatMap Definition.entry) :=
  inline_flatMap fun d _ => d.inline_entry

theorem inline_ending : Inline L.ending := by
  rcases L.ended with h | h <;> rw [h] <;> decide

/-- In the tables there is no comment. -/
theorem mask_text : mask L.text = mask L.top ++ (L.tables.flatMap Definition.entry ++ L.ending) := by
  unfold text
  rw [L.mask_top, mask_inline_self (Inline.append (inline_entries _) L.inline_ending)]

theorem passage_ending {mark : Use → Bool} (hmark : Search mark) : Passage mark L.ending [] := by
  rcases L.ended with h | h <;> rw [h]
  · exact .nil _
  · exact hmark.passage (by decide)

theorem tableNames_text : tableNames L.text = L.tables.map (·.table.name) := by
  have hnone : callNames L.ending = [] := by
    have hending := callNames_passage (L.passage_ending Search.tableFunctions) []
    rwa [List.append_nil, callNames] at hending
  have hall : ∀ tables : List Definition, (∀ d ∈ tables, d.Admissible) →
      callNames (tables.flatMap Definition.entry ++ L.ending) =
        tables.map (·.table.name.toList) := by
    intro tables hadmissible
    induction tables with
    | nil => exact hnone
    | cons d tables ih =>
      rw [List.flatMap_cons, List.append_assoc, (hadmissible d (by simp)).callNames_entry,
        ih fun e he => hadmissible e (List.mem_cons_of_mem _ he)]
      rfl
  rw [tableNames, L.mask_text, callNames_passage L.passage_mask_top,
    hall _ L.harmonious.admissible, List.map_map]
  refine List.map_congr_left fun d _ => ?_
  exact String.ofList_toList

/-- The tables that exist are those of the layout. -/
theorem tableExists_text {name : List Char} (hname : ∀ c ∈ name, isQuote c = false) :
    tableExists L.text name = true ↔ ∃ d ∈ L.tables, d.table.name.toList = name := by
  have hnone : anywhere (callsTable name) L.ending = false := by
    have hending := anywhere_passage (L.passage_ending Search.tableFunctions) name []
    rwa [List.append_nil] at hending
  have hall : ∀ tables : List Definition, (∀ d ∈ tables, d.Admissible) →
      anywhere (callsTable name) (tables.flatMap Definition.entry ++ L.ending) =
        tables.any (name == ·.table.name.toList) := by
    intro tables hadmissible
    induction tables with
    | nil => exact hnone
    | cons d tables ih =>
      rw [List.flatMap_cons, List.append_assoc, (hadmissible d (by simp)).anywhere_entry hname,
        ih fun e he => hadmissible e (List.mem_cons_of_mem _ he)]
      rfl
  rw [tableExists, L.mask_text, anywhere_passage L.passage_mask_top,
    hall _ L.harmonious.admissible, List.any_eq_true]
  exact exists_congr fun d => and_congr_right fun _ => beq_iff_eq.trans eq_comm

section Located

variable {L} {before after : List Definition} {d : Definition} (h : L.tables = before ++ d :: after)

include h

theorem mem_tables : d ∈ L.tables := by
  rw [h]
  simp

theorem mem_others {e : Definition} (he : e ∈ before ∨ e ∈ after) : e ∈ L.tables := by
  rw [h, List.mem_append, List.mem_cons]
  exact he.imp id .inr

/-- The other tables have other names. -/
theorem name_ne {e : Definition} (he : e ∈ before ∨ e ∈ after) : e.table.name ≠ d.table.name := by
  have hnames := L.harmonious.names
  rw [h, List.map_append, List.map_cons, List.nodup_append, List.nodup_cons] at hnames
  obtain ⟨-, ⟨hafter, -⟩, hbefore⟩ := hnames
  rcases he with he | he
  · exact hbefore _ (List.mem_map_of_mem he) _ (by simp)
  · exact fun hne => hafter (hne ▸ List.mem_map_of_mem he)

/-- What stands before the block of a table. -/
theorem text_eq : L.text = L.top ++ (before.flatMap Definition.entry ++ '\n' :: d.table.preamble) ++
    (d.table.renderBlock.toList ++ '\n' :: (after.flatMap Definition.entry ++ L.ending)) := by
  rw [text, h, List.flatMap_append, List.flatMap_cons, List.append_assoc, List.append_assoc,
    d.entry_append]
  simp only [List.append_assoc, List.cons_append, List.nil_append]

/-- A table of a layout is located at its block. -/
theorem locateTable_text : locateTable L.text d.table.name.toList = .ok (some
    ⟨(L.top ++ (before.flatMap Definition.entry ++ '\n' :: d.table.preamble)).length,
      (L.top ++ (before.flatMap Definition.entry ++ '\n' :: d.table.preamble)).length +
        (d.table.renderBlock.toList ++ ['\n']).length⟩) := by
  have hadmissible := L.harmonious.admissible d (mem_tables h)
  have hexists : tableExists L.text d.table.name.toList = true :=
    (L.tableExists_text d.name_quotes).mpr ⟨d, mem_tables h, rfl⟩
  have hskips : Skips (tableDeclaration? d.table.name.toList)
      (mask L.top ++ (before.flatMap Definition.entry ++ '\n' :: d.table.preamble)) := by
    refine (Skips.of_silent (fun _ => tableDeclaration?_eq_none) L.silent_mask_top).append
      ((Skips.flatMap fun e he => ?_).append d.skips_front)
    have hmem : e ∈ L.tables := mem_others h (.inl he)
    exact e.skips_tableDeclaration? (L.harmonious.admissible e hmem).named d.name_quotes
      fun hname => name_ne h (.inl he) (String.toList_injective hname).symm
  have hmask : mask L.text =
      mask L.top ++ (before.flatMap Definition.entry ++ '\n' :: d.table.preamble) ++
        (d.table.renderBlock.toList ++ '\n' :: (after.flatMap Definition.entry ++ L.ending)) := by
    rw [L.mask_text, h, List.flatMap_append, List.flatMap_cons, List.append_assoc, d.entry_append]
    simp only [List.append_assoc, List.cons_append, List.nil_append]
  refine d.locateTable_at _ _ (text_eq h) hexists ?_ rfl
  rw [hmask, hskips.atLineStart?, atLineStart?_here (by simp)
    (d.tableDeclaration?_block hadmissible.named _), Option.map_some]
  simp only [List.length_append, mask_length, Nat.add_zero]

end Located

/-- The block of a table is cut out as it was written. -/
theorem tableBlock?_text {d : Definition} (hd : d ∈ L.tables) :
    Source.tableBlock? L.text d.table.name.toList =
      .ok (some (d.table.renderBlock.toList ++ ['\n'])) := by
  obtain ⟨before, after, h⟩ := List.append_of_mem hd
  rw [Source.tableBlock?, locateTable_text h, text_eq h, Except.map, Option.map_some,
    Span.cut_statement]

end Layout
end Schema
end SchemaScaffold
