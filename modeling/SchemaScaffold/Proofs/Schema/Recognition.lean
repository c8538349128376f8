import SchemaScaffold.Proofs.Schema.Assembly
import SchemaScaffold.Proofs.Table.Block

/-!
A merge recognises its own result. Whatever the old text is, the line that declares the table stays
in sight: it holds no slash, and nothing after it ends a block comment, so no comment that started
earlier can reach over it.
-/

namespace SchemaScaffold

open Source Text Naming

theorem anywhere_append {test : List Char → Bool} {a b : List Char} (h : test b = true)
    (hb : b ≠ []) : anywhere test (a ++ b) = true := by
  induction a with
  | nil =>
    cases b with
    | nil => exact absurd rfl hb
    | cons c b => simp [anywhere, h]
  | cons c a ih => simp [anywhere, ih]

/-- The declaration of a table up to the end of its name. -/
def Table.announcement (t : Table) : List Char :=
  "export const ".toList ++ (t.exportName.toList ++ (" = ".toList ++ (t.function.toList ++
    "(\"".toList ++ (t.name.toList ++ ['"']))))

theorem callsTable_announced {function name : List Char}
    (hfunction : function ∈ tableFunctions.map String.toList) (rest : List Char) :
    callsTable name (function ++ "(\"".toList ++ (name ++ '"' :: rest)) = true := by
  have hopen : "(\"".toList ++ (name ++ '"' :: rest) = '(' :: '"' :: (name ++ '"' :: rest) := rfl
  rw [List.append_assoc, callsTable, tableFunction?_function hfunction, hopen, Option.bind_some,
    namedArgument?_name]
  rfl

namespace Definition

variable (d : Definition)

theorem block_announces : ∃ rest, d.table.renderBlock.toList ++ ['\n'] = d.table.announcement ++ rest := by
  refine ⟨"\", \x7b\n".toList.tail ++ (d.table.columns.flatMap Column.chunk ++ ['\x7d'] ++
    (");".toList ++ ['\n'])), ?_⟩
  have hname : "\", \x7b\n".toList = '"' :: "\", \x7b\n".toList.tail := by decide
  have hopen : "(\"".toList = '(' :: "\"".toList := by decide
  rw [d.renderBlock_eq]
  unfold statement Table.arguments Table.announcement
  conv => lhs; rw [hname]
  simp only [hopen, List.append_assoc, List.cons_append, List.nil_append, -String.reduceToList]

theorem announcement_no_slash : '/' ∉ d.table.announcement := by
  have hplain : d.table.announcement.all isPlain = true := by
    unfold Table.announcement
    simp only [List.all_append, Bool.and_eq_true]
    exact ⟨by decide, plain_alphanum d.exportName_chars, by decide, ⟨d.function_plain, by decide⟩,
      plain_snake d.name_chars, by decide⟩
  exact not_mem_of_plain (by decide) hplain

/-- No block comment can end in the block of a table, unless an enum value ends it. -/
theorem block_ends_no_comment
    (hvalues : ∀ f ∈ d.fields, ∀ value ∈ f.enumValues.getD [], occursIn "*/" value = false) :
    ¬ ['*', '/'] <:+: d.table.renderBlock.toList ++ ['\n'] := by
  have hnone : ∀ {s : List Char}, s.all isPlain = true → '/' ∉ s := not_mem_of_plain (by decide)
  have hpieces : Piecewise (Unpaired '*' '/') (enumValues d.fields) :=
    { append := Unpaired.append
      plain := fun h => unpaired_of_not_mem (hnone h)
      literal := by
        intro value hvalue
        obtain ⟨f, hf, hvalue⟩ := List.mem_flatMap.mp hvalue
        refine ⟨fun hin => ?_, by simp [jsonLiteral]⟩
        exact occursIn_eq_false.mp (hvalues f hf value hvalue)
          (infix_of_jsonLiteral (by decide) (by decide) (by decide) hin) }
  exact (d.piecewise_block hpieces fun _ h => unpaired_of_not_mem (by simpa using hnone h)).1

/-- Behind any text the table is there. -/
theorem tableExists_behind
    (hvalues : ∀ f ∈ d.fields, ∀ value ∈ f.enumValues.getD [], occursIn "*/" value = false)
    (front : List Char) (hfront : ['\n'] <:+ front) :
    tableExists (front ++ (d.table.renderBlock.toList ++ ['\n'])) d.table.name.toList = true := by
  obtain ⟨front, rfl⟩ := hfront
  obtain ⟨rest, hrest⟩ := d.block_announces
  have hend := d.block_ends_no_comment hvalues
  rw [hrest] at hend ⊢
  obtain ⟨before, after, hmask⟩ := line_in_sight _ rest d.announcement_no_slash hend front
  rw [tableExists, List.append_assoc, List.singleton_append, hmask]
  have hcall : callsTable d.table.name.toList
      (d.table.function.toList ++ "(\"".toList ++ (d.table.name.toList ++ '"' :: after)) = true :=
    callsTable_announced d.function_mem after
  have hparts : before ++ (d.table.announcement ++ after) =
      before ++ ("export const ".toList ++ (d.table.exportName.toList ++ " = ".toList)) ++
        (d.table.function.toList ++ "(\"".toList ++ (d.table.name.toList ++ '"' :: after)) := by
    unfold Table.announcement
    simp only [List.append_assoc, List.cons_append, List.nil_append, -String.reduceToList]
  rw [hparts]
  exact anywhere_append hcall (by simp)

end Definition

namespace Schema

theorem mask_of_blank {cs : List Char} (h : allBlank cs = true) : mask cs = cs := by
  induction cs with
  | nil => simp
  | cons c cs ih =>
    obtain ⟨hc, hcs⟩ : isBlank c = true ∧ allBlank cs = true := by simpa [allBlank] using h
    have hslash : c ≠ '/' := by
      rintro rfl
      exact absurd hc (by decide)
    have hnext : next c cs = (.char c, cs) := by simp [next, not_isQuote_of_isBlank hc, hslash]
    rw [mask_cons, hnext, ih hcs]
    rfl

theorem not_allBlank_of_tableExists {source name : List Char} (h : tableExists source name = true) :
    allBlank source = false := by
  rw [← Bool.not_eq_true]
  intro hblank
  have hnone : ∀ cs : List Char, allBlank cs = true → anywhere (callsTable name) cs = false := by
    intro cs hcs
    induction cs with
    | nil => rfl
    | cons c cs ih =>
      obtain ⟨hc, hcs⟩ : isBlank c = true ∧ allBlank cs = true := by simpa [allBlank] using hcs
      have hfunction : tableFunction? (c :: cs) = none := by
        have hfirst : c ≠ 'm' ∧ c ≠ 'p' ∧ c ≠ 's' := by
          refine ⟨?_, ?_, ?_⟩ <;>
            · rintro rfl
              exact absurd hc (by decide)
        simp [tableFunction?, tableFunctions, dropText?, Ne.symm hfirst.1, Ne.symm hfirst.2.1,
          Ne.symm hfirst.2.2]
      simp [anywhere, callsTable, hfunction, ih hcs]
  rw [tableExists, mask_of_blank hblank, hnone source hblank] at h
  cases h

/-- A table that is written stands at the end, at the start of a line. -/
theorem kept_render {existing : Option String} {table : Table} {k : List Char}
    (h : kept existing table = .ok k) : ∃ front, ['\n'] <:+ front ∧
      k ++ (table.render.toList ++ ['\n']) = front ++ (table.renderBlock.toList ++ ['\n']) := by
  refine ⟨k ++ table.preamble, ?_, by rw [table.render_toList, List.append_assoc, List.append_assoc]⟩
  unfold Table.preamble
  split
  · rw [List.append_nil]
    exact (List.suffix_append ['\n'] ['\n']).trans (kept_ends h)
  · rw [← List.append_assoc]
    exact List.suffix_append _ _

/-- After any merge of a table, however its text looks, the table is there; and another merge of a
table with that name, under any dialect, leaves the text as it is. -/
theorem merge_recognises_result (d : Definition)
    (hvalues : ∀ f ∈ d.fields, ∀ value ∈ f.enumValues.getD [], occursIn "*/" value = false)
    {existing : Option String} {force : Bool} {m : Merge}
    (h : merge existing d.table force = .ok m) :
    tableExists m.content.toList d.table.name.toList = true ∧
      ∀ other : Table, other.name = d.table.name →
        merge (some m.content) other false =
          .ok { content := m.content, action := .skipped } := by
  have hexists : tableExists m.content.toList d.table.name.toList = true := by
    rcases merge_cases h with ⟨-, hexists, -, rfl⟩ | ⟨-, k, hk, hcontent⟩
    · exact hexists
    · obtain ⟨front, hbreak, hparts⟩ := kept_render hk
      rw [hcontent, hparts]
      exact d.tableExists_behind hvalues _ hbreak
  refine ⟨hexists, fun other hname => ?_⟩
  have hblank := not_allBlank_of_tableExists hexists
  simp only [merge, Option.getD_some, hblank, hname, hexists]
  rfl

/-- A table with an enum column. -/
def tasks : Definition :=
  .build "Task" ["title", "state:enum:open,done"] .mysql { timestamps := false } rfl rfl rfl

/-- A text that leaves a comment and a backtick literal open. -/
def unclosed : String := "/* tasks\n\x60\n"

theorem merge_recognises_result_unclosed :
    (∀ f ∈ tasks.fields, ∀ value ∈ f.enumValues.getD [], occursIn "*/" value = false) ∧
    merge (some unclosed) tasks.table true =
      .ok { content := assemble (header unclosed.toList) (afterHeader unclosed.toList) tasks.table
            action := .appended } ∧
    tableExists (assemble (header unclosed.toList) (afterHeader unclosed.toList) tasks.table).toList
      tasks.table.name.toList = true := by
  have hvalues : ∀ f ∈ tasks.fields, ∀ value ∈ f.enumValues.getD [], occursIn "*/" value = false := by
    decide
  have hmerge : merge (some unclosed) tasks.table true =
      .ok { content := assemble (header unclosed.toList) (afterHeader unclosed.toList) tasks.table
            action := .appended } := by
    unfold merge
    rw [Option.getD_some, if_neg (by decide), if_neg (by decide +kernel)]
  exact ⟨hvalues, hmerge, (merge_recognises_result tasks hvalues hmerge).1⟩

end Schema
end SchemaScaffold
