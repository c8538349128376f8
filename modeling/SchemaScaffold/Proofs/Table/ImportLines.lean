import SchemaScaffold.Proofs.Source.Breaks
import SchemaScaffold.Proofs.Table.LegibleImports
import SchemaScaffold.Proofs.Table.Words

/-!
Import statements of generated code. An entry is written on one line, and reading that line gives
the entry back; so gathering the statements of a text that starts with tidy imports gives these
imports, and stripping them leaves what follows.
-/

namespace SchemaScaffold

open Source Naming Text

/-- A word of letters and digits is a symbol. -/
theorem Source.isSymbol_of_isAlphanum {s : String} (hne : s.toList ≠ [])
    (h : ∀ c ∈ s.toList, c.isAlphanum = true) : IsSymbol s where
  nonempty := by simpa using hne
  comma hmem := absurd (h _ hmem) (by decide)
  brace hmem := absurd (h _ hmem) (by decide)
  collapsed := by
    simp [collapse, fields_of_none hne fun c hc => not_isBlank_of_isAlphanum (h c hc)]

/-! ## The line of an entry -/

namespace Imports

/-- What stands behind the word of an import statement. -/
def lineRest (entry : String × List String) : List Char :=
  ' ' :: (symbolText entry.2 ++ (" \x7d from \"".toList ++ (entry.1.toList ++ "\";".toList)))

theorem line_eq (entry : String × List String) :
    line entry = "import ".toList ++ ('\x7b' :: lineRest entry ++ ['\n']) := by
  have hopen : "import \x7b ".toList = "import ".toList ++ ['\x7b', ' '] := by decide
  simp only [line, renderStatement, lineRest, symbolText, String.toList_append, hopen,
    String.toList_intercalate, List.append_assoc, List.cons_append, List.nil_append,
    -String.reduceToList]

/-- The lines of tidy imports. -/
theorem Tidy.render_toList {imports : Imports} (h : Tidy imports) :
    imports.render.toList ++ ['\n'] = imports.flatMap line := by
  have hshown : imports.shown = imports :=
    List.filter_eq_self.mpr fun entry hentry => by
      obtain ⟨dialect, hprovided⟩ := h.entries entry hentry
      simpa using hprovided.nonempty
  rw [Imports.render_toList (hshown.symm ▸ h.nonempty), hshown]

/-! ### Characters -/

theorem symbol_alphanum (dialect : Dialect) : ∀ s ∈ Mapping.moduleSymbols dialect,
    s.toList ≠ [] ∧ ∀ c ∈ s.toList, c.isAlphanum = true := by
  have hall : (Mapping.moduleSymbols dialect).all
      (fun s => !s.toList.isEmpty && s.toList.all Char.isAlphanum) = true := by
    cases dialect <;> decide +kernel
  intro s hs
  obtain ⟨hne, hchars⟩ := Bool.and_eq_true_iff.mp (List.all_eq_true.mp hall s hs)
  exact ⟨by simpa using hne, List.all_eq_true.mp hchars⟩

section Line

variable {dialect : Dialect} {entry : String × List String} (h : Provided dialect entry)

include h

/-- Between the braces stand letters, digits, commas and blanks. -/
theorem Provided.not_mem_symbolText {c : Char} (hcomma : c ≠ ',') (hblank : c ≠ ' ')
    (hc : c.isAlphanum = false) : c ∉ symbolText entry.2 := by
  intro hmem
  rcases mem_intercalate hmem with hmem | ⟨w, hw, hmem⟩
  · have hboth : ∀ c ∈ ", ".toList, c = ',' ∨ c = ' ' := by simp
    rcases hboth c hmem with he | he
    · exact hcomma he
    · exact hblank he
  · obtain ⟨s, hs, rfl⟩ := List.mem_map.mp hw
    rw [(symbol_alphanum dialect s (h.symbols s hs)).2 c hmem] at hc
    cases hc

theorem Provided.newline_not_mem : '\n' ∉ lineRest entry := by
  have hsymbols : '\n' ∉ symbolText entry.2 :=
    h.not_mem_symbolText (by decide) (by decide) (by decide)
  have hmodule : '\n' ∉ entry.1.toList := by
    rw [h.module]
    cases dialect <;> decide
  unfold lineRest
  simp only [List.mem_cons, List.mem_append, not_or, -String.reduceToList]
  exact ⟨by decide, hsymbols, by decide, hmodule, by decide⟩

/-- The line of an entry declares nothing. -/
theorem Provided.silent_line : Silent (line entry) := by
  rw [line_eq]
  refine Source.silent_line (forall_blank_or_word (by decide)) (by decide) (by decide) (by decide) ?_
  rw [List.mem_cons, not_or]
  exact ⟨by decide, h.newline_not_mem⟩

theorem Provided.paragraph_line : Paragraph (line entry) := by
  have hline : '\n' ∉ "import ".toList ++ '\x7b' :: lineRest entry := by
    rw [List.mem_append, List.mem_cons, not_or, not_or]
    exact ⟨by decide, by decide, h.newline_not_mem⟩
  have hparts : line entry = ("import ".toList ++ '\x7b' :: lineRest entry) ++ ['\n'] := by
    rw [line_eq, List.append_assoc]
  rw [hparts]
  exact Source.paragraph_line hline (by simp)

/-- The line of an entry is code. -/
theorem Provided.inline_line : Inline (line entry) := by
  have hsymbols : ∀ {awaited : List Char},
      Reads (awaited, .code) (symbolText entry.2) (awaited, .code) := by
    intro awaited
    refine Reads.intercalate (.of_eq rfl) fun piece hpiece => ?_
    obtain ⟨s, hs, rfl⟩ := List.mem_map.mp hpiece
    exact reads_name fun c hc =>
      isNameChar_of_isAlphanum ((symbol_alphanum dialect s (h.symbols s hs)).2 c hc)
  have hmodule : Inline ("\"".toList ++ (entry.1.toList ++ "\";\n".toList)) := by
    rw [h.module]
    cases dialect <;> decide
  have hopen : Reads ([], .code) ("import \x7b ".toList) (['\x7d'], .code) := .of_eq rfl
  have hclose : Reads (['\x7d'], .code) (" \x7d from ".toList) ([], .code) := .of_eq rfl
  have hparts : line entry = "import \x7b ".toList ++ (symbolText entry.2 ++ (" \x7d from ".toList ++
      ("\"".toList ++ (entry.1.toList ++ "\";\n".toList)))) := by
    have hopen : "import \x7b ".toList = "import ".toList ++ ['\x7b', ' '] := by decide
    have hfrom : " \x7d from \"".toList = " \x7d from ".toList ++ "\"".toList := by decide
    have hend : "\";\n".toList = "\";".toList ++ ['\n'] := by decide
    rw [line_eq, lineRest, hopen, hfrom, hend]
    simp only [List.append_assoc, List.cons_append, List.nil_append]
  rw [hparts]
  exact hopen.append (hsymbols.append (hclose.append hmodule))

/-! ### Words -/

/-- The line of an entry names its symbols and calls nothing. -/
theorem Provided.passage_line {mark : Use → Bool} (hmark : Search mark)
    (hsymbols : ∀ s ∈ Mapping.moduleSymbols dialect, mark (s.toList, false) = false) :
    Passage mark (line entry) [] := by
  have hlist : ∀ symbols : List String, symbols ≠ [] →
      (∀ s ∈ symbols, s ∈ Mapping.moduleSymbols dialect) →
      Passage mark (symbolText symbols ++ " \x7d".toList) [] := by
    intro symbols hne hmem
    induction symbols with
    | nil => exact absurd rfl hne
    | cons s symbols ih =>
      have hs := hmem s (by simp)
      obtain ⟨hnil, hchars⟩ := symbol_alphanum dialect s hs
      have hword := fun c hc => isWordChar_of_isAlphanum (hchars c hc)
      have hfound : [(s.toList, false)].filter mark = [] := by simp [hsymbols s hs]
      cases symbols with
      | nil =>
        have hread : follow .between (s.toList ++ " \x7d".toList) =
            ([(s.toList, false)], .between) := by
          rw [follow_append, follow_name hword hnil]
          rfl
        have htext : symbolText [s] = s.toList := by simp [symbolText]
        rw [htext]
        exact ⟨by rw [hread, hfound], by rw [hread]⟩
      | cons s' symbols =>
        have hname : Passage mark (s.toList ++ [',']) ([(s.toList, false)].filter mark) :=
          passage_named hword hnil (by decide)
        rw [hfound] at hname
        have htext : symbolText (s :: s' :: symbols) ++ " \x7d".toList =
            (s.toList ++ [',']) ++ ([' '] ++ (symbolText (s' :: symbols) ++ " \x7d".toList)) := by
          have hcomma : ", ".toList = [','] ++ [' '] := by decide
          simp only [symbolText, List.map_cons, List.intercalate_cons_cons, hcomma,
            List.append_assoc]
        rw [htext]
        exact hname.append_nil ((hmark.passage (by decide)).append_nil
          (ih (by simp) fun t ht => hmem t (List.mem_cons_of_mem _ ht)))
  have hmodule : isQuiet (" from \"".toList ++ (entry.1.toList ++ "\";\n".toList)) = true := by
    rw [h.module]
    cases dialect <;> decide
  have hparts : line entry = "import \x7b".toList ++ ([' '] ++ ((symbolText entry.2 ++ " \x7d".toList) ++
      (" from \"".toList ++ (entry.1.toList ++ "\";\n".toList)))) := by
    have hopen : "import \x7b".toList = "import ".toList ++ ['\x7b'] := by decide
    have hfrom : " \x7d from \"".toList = " \x7d".toList ++ " from \"".toList := by decide
    have hend : "\";\n".toList = "\";".toList ++ ['\n'] := by decide
    rw [line_eq, lineRest, hopen, hfrom, hend]
    simp only [List.append_assoc, List.cons_append, List.nil_append]
  rw [hparts]
  exact (hmark.passage (by decide)).append_nil ((hmark.passage (by decide)).append_nil
    ((hlist entry.2 h.nonempty h.symbols).append_nil (hmark.passage hmodule)))

/-! ### Reading the line back -/

/-- The entry can be written down. -/
theorem Provided.legible : LegibleEntry entry where
  module := by
    have hall : (Mapping.standardModule dialect).toList.all (fun c => !isImportQuote c) = true ∧
        (Mapping.standardModule dialect).toList ≠ [] := by
      cases dialect <;> decide
    rw [h.module]
    exact ⟨hall.2, fun c hc => by simpa using List.all_eq_true.mp hall.1 c hc⟩
  symbols s hs := by
    obtain ⟨hne, hchars⟩ := symbol_alphanum dialect s (h.symbols s hs)
    exact isSymbol_of_isAlphanum hne hchars

end Line

section Tidy

variable {imports : Imports} (h : Tidy imports)

include h

/-- A property of the lines of all entries, put together. -/
theorem Tidy.forall_line {P : List Char → Prop}
    (hline : ∀ dialect entry, Provided dialect entry → P (line entry)) :
    ∀ entry ∈ imports, P (line entry) := by
  intro entry hentry
  obtain ⟨dialect, hprovided⟩ := h.entries entry hentry
  exact hline dialect entry hprovided

theorem Tidy.legible : Legible imports where
  modules := h.modules
  nodup entry hentry := by
    obtain ⟨dialect, hprovided⟩ := h.entries entry hentry
    exact hprovided.nodup
  entries entry hentry := by
    obtain ⟨dialect, hprovided⟩ := h.entries entry hentry
    exact hprovided.legible

theorem Tidy.stripImports {rest : List Char} (hrest : Skips importAt? rest) :
    Source.stripImports (imports.flatMap line ++ rest) = rest := by
  rw [Source.stripImports, splitImports_lines h.legible.entries, splitImports_of_skips hrest]

/-- The imports of a text that starts with tidy ones and has no others. -/
theorem Tidy.extractImports {rest : List Char} (hrest : Skips importAt? rest) :
    Source.extractImports (imports.flatMap line ++ rest) = imports := by
  rw [h.legible.extractImports_lines, statements, splitImports_of_skips hrest]
  rfl

end Tidy
end Imports
end SchemaScaffold
