import SchemaScaffold.Proofs.Source.Statements
import SchemaScaffold.Proofs.Table.Code
import SchemaScaffold.Proofs.Table.ImportTables
import SchemaScaffold.Proofs.Text.Splitting

/-!
Imports that can be written down. What is read from a text is legible: a module is what may stand
between quotes, and a symbol what may stand between commas, with its blanks collapsed. An entry of
legible imports is written on a line, and reading the line gives the entry back; so imports on lines
of their own at the top of a text are the first that are read from it.
-/

namespace SchemaScaffold

open Source Naming Text

/-! ## Symbols and modules -/

namespace Source

/-- The words of a piece, one blank between each two. -/
def collapse (piece : List Char) : String :=
  " ".intercalate ((fields isBlank piece).map String.ofList)

theorem collapse_toList (piece : List Char) :
    (collapse piece).toList = [' '].intercalate (fields isBlank piece) := by
  have hblank : " ".toList = [' '] := by decide
  simp [collapse, String.toList_intercalate, hblank, List.map_map, Function.comp_def]

/-- Words that are put together with blanks are the words of the whole. -/
theorem fields_intercalate {ws : List (List Char)}
    (h : ∀ w ∈ ws, w ≠ [] ∧ ∀ c ∈ w, isBlank c = false) :
    fields isBlank ([' '].intercalate ws) = ws := by
  induction ws with
  | nil => rfl
  | cons w ws ih =>
    obtain ⟨hne, hblank⟩ := h w (by simp)
    cases ws with
    | nil => rw [List.intercalate_singleton, fields_of_none hne hblank]
    | cons v ws =>
      rw [List.intercalate_cons_cons, List.append_assoc, List.singleton_append,
        fields_append isBlank (by decide), fields_of_none hne hblank,
        ih fun w hw => h w (List.mem_cons_of_mem _ hw)]
      rfl

theorem fields_collapse (piece : List Char) :
    fields isBlank (collapse piece).toList = fields isBlank piece := by
  rw [collapse_toList]
  exact fields_intercalate fun w hw => ⟨(mem_fields hw).1, fun c hc => ((mem_fields hw).2 c hc).2⟩

theorem mem_collapse {piece : List Char} {c : Char} (h : c ∈ (collapse piece).toList) :
    c = ' ' ∨ c ∈ piece := by
  rw [collapse_toList] at h
  rcases mem_intercalate h with h | ⟨w, hw, h⟩
  · exact .inl (List.mem_singleton.mp h)
  · exact .inr ((mem_fields hw).2 c h).1

/-- Blanks at the ends of a piece do not matter. -/
theorem collapse_padded {after : List Char} (hafter : after = [] ∨ after = [' ']) (piece : List Char) :
    collapse (' ' :: (piece ++ after)) = collapse piece := by
  have hfront := fields_append isBlank (c := ' ') (by decide) [] (piece ++ after)
  have hfields : fields isBlank (' ' :: (piece ++ after)) = fields isBlank piece := by
    rw [← List.nil_append (' ' :: (piece ++ after)), hfront]
    rcases hafter with rfl | rfl
    · rw [List.append_nil]
      rfl
    · rw [fields_append isBlank (by decide)]
      exact List.append_nil _
  rw [collapse, hfields, collapse]

/-- What may stand between the commas of an import list. -/
structure IsSymbol (s : String) : Prop where
  nonempty : s ≠ ""
  comma : ',' ∉ s.toList
  brace : '\x7d' ∉ s.toList
  collapsed : collapse s.toList = s

/-- What may stand between the quotes of an import statement. -/
structure IsModule (module : String) : Prop where
  nonempty : module.toList ≠ []
  unquoted : ∀ c ∈ module.toList, isImportQuote c = false

theorem importSymbols_eq (list : List Char) : importSymbols list =
    ((split (· == ',') list).map collapse).filter (!·.isEmpty) := rfl

/-- What is read between the braces are symbols. -/
theorem isSymbol_of_mem {list : List Char} (hlist : '\x7d' ∉ list) {s : String}
    (h : s ∈ importSymbols list) : IsSymbol s := by
  rw [importSymbols_eq] at h
  obtain ⟨hmem, hne⟩ := List.mem_filter.mp h
  obtain ⟨piece, hpiece, rfl⟩ := List.mem_map.mp hmem
  have hchar : ∀ c ∈ (collapse piece).toList, c = ' ' ∨ c ∈ list ∧ c ≠ ',' := fun c hc =>
    (mem_collapse hc).imp_right fun hc => mem_of_mem_split hpiece hc
  exact
    { nonempty := by simpa using hne
      comma := fun hc => by simpa using hchar _ hc
      brace := fun hc => by simpa [hlist] using hchar _ hc
      collapsed := by rw [collapse, fields_collapse, collapse] }

theorem importSymbols_append (a b : List Char) :
    importSymbols (a ++ ',' :: b) = importSymbols a ++ importSymbols b := by
  simp only [importSymbols, split_append (· == ',') (beq_self_eq_true ','), List.map_append,
    List.filter_append]

/-- One symbol, with blanks around it. -/
theorem IsSymbol.read {s : String} (h : IsSymbol s) {after : List Char}
    (hafter : after = [] ∨ after = [' ']) : importSymbols (' ' :: (s.toList ++ after)) = [s] := by
  have hcomma : ∀ c ∈ ' ' :: (s.toList ++ after), (c == ',') = false := by
    intro c hc
    rw [beq_eq_false_iff_ne]
    rintro rfl
    rcases List.mem_cons.mp hc with hc | hc
    · cases hc
    · rcases List.mem_append.mp hc with hc | hc
      · exact h.comma hc
      · rcases hafter with rfl | rfl <;> simp at hc
  rw [importSymbols_eq, split_of_none hcomma, List.map_singleton, collapse_padded hafter,
    h.collapsed]
  simp [h.nonempty]

end Source

/-! ## The line of an entry -/

namespace Imports

/-- The symbols between the braces. -/
def symbolText (symbols : List String) : List Char :=
  ", ".toList.intercalate (symbols.map String.toList)

/-- An entry as a line of its own. -/
def line (entry : String × List String) : List Char :=
  (renderStatement entry.1 entry.2).toList ++ ['\n']

/-- Rendered imports, with the end of the last line: the lines of the entries that are shown. -/
theorem render_toList {imports : Imports} (h : imports.shown ≠ []) :
    imports.render.toList ++ ['\n'] = imports.shown.flatMap line := by
  have hbreak : "\n".toList = ['\n'] := by decide
  rw [render, ← shown, String.toList_intercalate, hbreak, intercalate_concat (by simpa using h),
    List.map_map, List.flatMap_map]
  rfl

/-- The statement on the line of an entry. -/
def statement (entry : String × List String) : ImportStatement where
  list := ' ' :: (symbolText entry.2 ++ [' '])
  module := entry.1.toList
  endsLine := true

/-- An entry that can be written down. -/
structure LegibleEntry (entry : String × List String) : Prop where
  module : IsModule entry.1
  symbols : ∀ s ∈ entry.2, IsSymbol s

section Entry

variable {entry : String × List String} (h : LegibleEntry entry)

include h

theorem LegibleEntry.brace_not_mem : '\x7d' ∉ (statement entry).list := by
  intro hmem
  simp only [statement, List.mem_cons, List.mem_append, List.not_mem_nil, or_false] at hmem
  rcases hmem with hmem | hmem | hmem
  · cases hmem
  · rcases mem_intercalate hmem with hmem | ⟨w, hw, hmem⟩
    · exact absurd hmem (by decide)
    · obtain ⟨s, hs, rfl⟩ := List.mem_map.mp hw
      exact (h.symbols s hs).brace hmem
  · cases hmem

/-- A line is a statement, a semicolon and a line break. -/
theorem LegibleEntry.importParts?_line (rest : List Char) : importParts? (line entry ++ rest) =
    some ((statement entry).list, entry.1.toList, ';' :: '\n' :: rest) := by
  have hblank : ∀ c ∈ [' '], isBlank c = true := List.forall_mem_singleton.mpr (by decide)
  have hquote : isImportQuote '"' = true := by decide
  have hopen : "import \x7b ".toList = "import".toList ++ [' ', '\x7b', ' '] := by decide
  have hfrom : " \x7d from \"".toList = [' ', '\x7d', ' '] ++ ("from".toList ++ [' ', '"']) := by decide
  have hend : "\";".toList = ['"', ';'] := by decide
  rw [importParts?_iff]
  refine ⟨_, .intro (List.forall_mem_nil _) hblank h.brace_not_mem hblank hblank hquote
    h.module.unquoted h.module.nonempty hquote, ?_⟩
  simp only [line, renderStatement, statement, symbolText, String.toList_append, hopen, hfrom, hend,
    String.toList_intercalate, List.append_assoc, List.cons_append, List.nil_append,
    -String.reduceToList]

/-- Reading the line of an entry takes the whole line. -/
theorem LegibleEntry.importAt?_line (rest : List Char) :
    importAt? (line entry ++ rest) = some (statement entry, rest) := by
  rw [importAt?_eq, h.importParts?_line]
  rfl

/-- The symbols that are read from the line of an entry. -/
theorem LegibleEntry.importSymbols_statement : importSymbols (statement entry).list = entry.2 := by
  have hall : ∀ symbols : List String, (∀ s ∈ symbols, IsSymbol s) →
      importSymbols (' ' :: (symbolText symbols ++ [' '])) = symbols := by
    intro symbols hsymbols
    induction symbols with
    | nil => decide
    | cons s symbols ih =>
      have hs := hsymbols s (by simp)
      cases symbols with
      | nil => simpa [symbolText] using hs.read (.inr rfl)
      | cons s' symbols =>
        have htext : ' ' :: (symbolText (s :: s' :: symbols) ++ [' ']) =
            ' ' :: (s.toList ++ []) ++ ',' :: (' ' :: (symbolText (s' :: symbols) ++ [' '])) := by
          have hcomma : ", ".toList = [',', ' '] := by decide
          simp only [symbolText, List.map_cons, List.intercalate_cons_cons, hcomma,
            List.append_assoc, List.cons_append, List.nil_append]
        rw [htext, importSymbols_append, hs.read (.inl rfl),
          ih fun t ht => hsymbols t (List.mem_cons_of_mem _ ht)]
        rfl
  exact hall entry.2 h.symbols

end Entry

/-- Entries on lines of their own are read and taken out one after the other. -/
theorem splitImports_lines {entries : Imports} (h : ∀ entry ∈ entries, LegibleEntry entry)
    (rest : List Char) : splitImports true (entries.flatMap line ++ rest) =
      (entries.map statement ++ (splitImports true rest).1, (splitImports true rest).2) := by
  induction entries with
  | nil => rfl
  | cons entry entries ih =>
    have hhere : importHere? true (line entry ++ (entries.flatMap line ++ rest)) =
        some (statement entry, entries.flatMap line ++ rest) := (h entry (by simp)).importAt?_line _
    have hflag : (statement entry).endsLine = true := rfl
    rw [List.flatMap_cons, List.append_assoc, splitImports_some hhere, hflag,
      ih fun e he => h e (List.mem_cons_of_mem _ he)]
    rfl

/-! ## Legible tables -/

/-- Imports as they are read from a text: every module once, with every symbol once. -/
structure Legible (imports : Imports) : Prop where
  modules : (imports.map (·.1)).Nodup
  nodup : ∀ entry ∈ imports, entry.2.Nodup
  entries : ∀ entry ∈ imports, LegibleEntry entry

theorem Legible.nil : Legible [] := ⟨List.nodup_nil, by simp, by simp⟩

theorem Legible.add {imports : Imports} (h : Legible imports) {module : String}
    {symbols : List String} (hentry : LegibleEntry (module, symbols)) :
    Legible (imports.add module symbols) where
  modules := nodup_add_modules h.modules module symbols
  nodup entry hmem := by
    rcases mem_add hmem with hmem | rfl | ⟨old, hold, rfl⟩
    · exact h.nodup entry hmem
    · exact nodup_addSymbols List.nodup_nil
    · exact nodup_addSymbols (h.nodup _ hold)
  entries entry hmem := by
    have hadded : ∀ old : List String, (∀ s ∈ old, IsSymbol s) →
        LegibleEntry (module, addSymbols old symbols) := fun old hold =>
      ⟨hentry.module, fun s hs => (mem_addSymbols.mp hs).elim (hold s) (hentry.symbols s)⟩
    rcases mem_add hmem with hmem | rfl | ⟨old, hold, rfl⟩
    · exact h.entries entry hmem
    · exact hadded [] (by simp)
    · exact hadded old (h.entries _ hold).symbols

theorem Legible.shown {imports : Imports} (h : Legible imports) : Legible imports.shown where
  modules := h.modules.sublist (List.filter_sublist.map _)
  nodup entry hentry := h.nodup entry (List.mem_filter.mp hentry).1
  entries entry hentry := h.entries entry (List.mem_filter.mp hentry).1

theorem Legible.merge {old new : Imports} (hold : Legible old)
    (hnew : ∀ entry ∈ new, LegibleEntry entry) : Legible (old.merge new) := by
  unfold Imports.merge
  induction new generalizing old with
  | nil => exact hold
  | cons entry new ih =>
    exact ih (hold.add (hnew entry (by simp))) fun e he => hnew e (List.mem_cons_of_mem _ he)

/-- What a statement says can be written down. -/
theorem legibleEntry_of_isImport {list module text : List Char} (h : IsImport list module text) :
    LegibleEntry (String.ofList module, importSymbols list) := by
  obtain ⟨-, -, hlist, -, -, -, hmodule, hne, -⟩ := h
  exact ⟨⟨by simpa using hne, by simpa using hmodule⟩, fun s hs => isSymbol_of_mem hlist hs⟩

/-- Gathers what statements say. -/
def gather (imports : Imports) (said : List (List Char × List Char)) : Imports :=
  said.foldl (fun imports statement =>
    imports.add (String.ofList statement.2) (importSymbols statement.1)) imports

theorem extractImports_eq_gather (cs : List Char) :
    extractImports cs = gather [] (statements cs) := extractImports_eq cs

/-- The imports of a text are legible. -/
theorem legible_extractImports (cs : List Char) : Legible (extractImports cs) := by
  have hall : ∀ (said : List (List Char × List Char)) (imports : Imports), Legible imports →
      (∀ statement ∈ said, ∃ text, IsImport statement.1 statement.2 text) →
      Legible (gather imports said) := by
    intro said
    induction said with
    | nil => exact fun _ h _ => h
    | cons statement said ih =>
      intro imports h hsaid
      obtain ⟨text, hstatement⟩ := hsaid statement (by simp)
      exact ih _ (h.add (legibleEntry_of_isImport hstatement)) fun s hs =>
        hsaid s (List.mem_cons_of_mem _ hs)
  rw [extractImports_eq_gather]
  exact hall _ [] .nil fun _ => isImport_of_mem

/-- What is gathered later goes behind what is there, and nothing comes twice. -/
theorem gather_symbols (said : List (List Char × List Char)) (imports : Imports) (module : String) :
    imports.symbols module <+: (gather imports said).symbols module := by
  induction said generalizing imports with
  | nil => exact List.prefix_refl _
  | cons statement said ih =>
    refine List.IsPrefix.trans ?_ (ih _)
    rw [symbols_add]
    split
    · rename_i hmodule
      rw [hmodule]
      exact addSymbols_prefix _ _
    · exact List.prefix_refl _

/-- Imports on lines of their own at the top of a text are the first that are read. -/
theorem Legible.extractImports_lines {imports : Imports} (h : Legible imports) (rest : List Char) :
    extractImports (imports.flatMap line ++ rest) = gather imports (statements rest) := by
  have hread : ∀ (entries gathered : Imports), (∀ entry ∈ entries, LegibleEntry entry) →
      gather gathered ((entries.map statement).map fun s => (s.list, s.module)) =
        entries.foldl (fun others entry => others.add entry.1 entry.2) gathered := by
    intro entries
    induction entries with
    | nil => exact fun _ _ => rfl
    | cons entry entries ih =>
      intro gathered hentries
      have hmodule : String.ofList (statement entry).module = entry.1 := String.ofList_toList
      rw [List.map_cons, List.map_cons, gather, List.foldl_cons, hmodule,
        (hentries entry (by simp)).importSymbols_statement, ← gather,
        ih _ fun e he => hentries e (List.mem_cons_of_mem _ he), List.foldl_cons]
  rw [extractImports_eq_gather, statements, splitImports_lines h.entries, List.map_append, gather,
    List.foldl_append, ← gather, ← gather, hread imports [] h.entries,
    gather_eq h.modules h.nodup, statements]

end Imports
end SchemaScaffold
