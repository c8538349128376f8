import SchemaScaffold.Proofs.Schema.Merging
import SchemaScaffold.Proofs.Schema.Recognition
import SchemaScaffold.Proofs.Text.LineFeeds

/-!
A schema file read again. Reading makes line feeds of all line breaks, wherever they came from; the
table that was written at the end has no others, so it is found all the same.
-/

namespace SchemaScaffold

open Source Text

/-- No piece of a table holds a carriage return. -/
theorem piecewise_return (values : List String) : Piecewise (fun s => '\r' ∉ s) values where
  append ha hb := by simp [ha, hb]
  plain := not_mem_of_plain (by decide)
  literal value _ := not_mem_jsonLiteral (by decide) (by decide) value

theorem Imports.Provided.return_not_mem {dialect : Dialect} {entry : String × List String}
    (h : Provided dialect entry) : '\r' ∉ line entry := by
  have hsymbols : '\r' ∉ symbolText entry.2 :=
    h.not_mem_symbolText (by decide) (by decide) (by decide)
  have hmodule : '\r' ∉ entry.1.toList := by
    rw [h.module]
    cases dialect <;> decide
  rw [line_eq, lineRest]
  simp only [List.mem_append, List.mem_cons, List.not_mem_nil, or_false, not_or, -String.reduceToList]
  exact ⟨by decide, ⟨by decide, by decide, hsymbols, by decide, hmodule, by decide⟩, by decide⟩

namespace Definition

variable (d : Definition)

theorem return_not_mem_block : '\r' ∉ d.table.renderBlock.toList ++ ['\n'] := by
  refine d.piecewise_block (piecewise_return _) fun _ hplain => ?_
  simpa using not_mem_of_plain (by decide) hplain

theorem return_not_mem_preamble : '\r' ∉ d.table.preamble := by
  rw [d.preamble_eq]
  split
  · simp
  · simp only [List.mem_append, List.mem_flatMap, List.mem_singleton, not_or]
    refine ⟨?_, by decide⟩
    rintro ⟨f, hf, hmem | hmem⟩
    · exact d.piecewise_enumDeclaration (piecewise_return _) (d.nativeEnum_accepted hf) hmem
    · cases hmem

/-- Behind any text the table is there, also when that text is read again. -/
theorem tableExists_reread
    (hvalues : ∀ f ∈ d.fields, ∀ value ∈ f.enumValues.getD [], occursIn "*/" value = false)
    {front : List Char} (hfront : ['\n'] <:+ front) :
    tableExists (lineFeeds (front ++ (d.table.renderBlock.toList ++ ['\n']))) d.table.name.toList =
      true := by
  obtain ⟨before, rfl⟩ := hfront
  have hline : (before ++ ['\n']).getLast? ≠ some '\r' := by
    rw [List.getLast?_concat]
    decide
  rw [lineFeeds_append fun h => absurd h hline, lineFeeds_of_not_mem d.return_not_mem_block]
  exact d.tableExists_behind hvalues _ (lineFeeds_line before)

/-- A schema with one table is read as it was written. -/
theorem withLineFeeds_fresh : withLineFeeds (Schema.fresh d.table) = Schema.fresh d.table := by
  obtain ⟨entry, hprovided, hfresh⟩ := d.fresh_entry
  have hreturn : '\r' ∉ (Schema.fresh d.table).toList := by
    rw [hfresh, d.entry_eq, List.mem_append, List.mem_append, List.mem_append, not_or, not_or, not_or]
    exact ⟨hprovided.return_not_mem, by decide, d.return_not_mem_preamble, d.return_not_mem_block⟩
  exact withLineFeeds_of_not_mem hreturn

/-- The block of the one table of a schema is cut out as it was written. -/
theorem tableBlock?_fresh (hname : d.table.name ≠ "") :
    Schema.tableBlock? (Schema.fresh d.table) d.table.name = .ok (some (d.table.renderBlock ++ "\n")) := by
  obtain ⟨entry, hprovided, hfresh⟩ := d.fresh_entry
  have hparts : Imports.line entry ++ d.entry = Imports.line entry ++ ('\n' :: d.table.preamble) ++
      (d.table.renderBlock.toList ++ ['\n']) := by
    rw [d.entry_eq]
    simp
  have hmask : mask (Imports.line entry ++ d.entry) = Imports.line entry ++ d.entry :=
    mask_inline_self (hprovided.inline_line.append d.inline_entry)
  have hexists : tableExists (Imports.line entry ++ d.entry) d.table.name.toList = true := by
    have hcall : callsTable d.table.name.toList (d.table.function.toList ++ '(' :: '"' ::
        (d.table.name.toList ++ '"' :: (d.remainder ++ []))) = true := by
      have hannounced : callsTable d.table.name.toList (d.table.function.toList ++ "(\"".toList ++
          (d.table.name.toList ++ '"' :: (d.remainder ++ []))) = true :=
        callsTable_announced d.function_mem _
      rwa [List.append_assoc] at hannounced
    rw [tableExists, hmask, hparts, ← List.append_nil (d.table.renderBlock.toList ++ ['\n']),
      d.block_call, ← List.append_assoc]
    exact anywhere_append hcall (by simp)
  have hskips : Skips (tableDeclaration? d.table.name.toList)
      (Imports.line entry ++ ('\n' :: d.table.preamble)) :=
    (Skips.of_silent (fun _ => tableDeclaration?_eq_none) hprovided.silent_line).append d.skips_front
  have hfound := hskips.atLineStart? (d.table.renderBlock.toList ++ ['\n'])
  rw [atLineStart?_here (by simp) (d.tableDeclaration?_block hname []), Option.map_some,
    ← hparts] at hfound
  rw [← hmask] at hfound
  have hblock := d.tableBlock?_at _ [] hparts hexists hfound rfl
  have hend : d.table.renderBlock.toList ++ ['\n'] = (d.table.renderBlock ++ "\n").toList := by
    rw [String.toList_append]
    rfl
  rw [Schema.tableBlock?, hfresh, hblock, hend]
  simp only [Except.map, Option.map_some, String.ofList_toList]

end Definition

namespace Schema

/-- What a merge leaves, written and read again, shows the table: another merge skips it. -/
theorem merge_reread (d : Definition)
    (hvalues : ∀ f ∈ d.fields, ∀ value ∈ f.enumValues.getD [], occursIn "*/" value = false)
    {existing : Option String} {force : Bool} {m : Merge} (h : merge existing d.table force = .ok m)
    (hchanged : m.changed = true) :
    tableExists (withLineFeeds m.content).toList d.table.name.toList = true := by
  rcases merge_cases h with ⟨-, -, -, rfl⟩ | ⟨-, k, hk, hcontent⟩
  · cases hchanged
  · obtain ⟨front, hfront, hparts⟩ := kept_render hk
    rw [withLineFeeds, String.toList_ofList, hcontent, hparts]
    exact d.tableExists_reread hvalues hfront

/-- A table that is there is skipped. -/
theorem merge_there {text : String} {table : Table}
    (h : tableExists text.toList table.name.toList = true) :
    merge (some text) table false = .ok { content := text, action := .skipped } := by
  have hblank := not_allBlank_of_tableExists h
  simp only [merge, Option.getD_some, hblank, h]
  rfl

end Schema
end SchemaScaffold
