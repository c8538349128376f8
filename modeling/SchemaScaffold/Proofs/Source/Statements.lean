import Mathlib.Data.List.TakeWhile
import SchemaScaffold.Proofs.Source.Calls
import SchemaScaffold.Proofs.Source.Starts
import SchemaScaffold.Source.Import

/-!
Import statements by their grammar. What is read at the start of a line is one statement of the
grammar, whatever follows it. The statements of a text are read line by line: after a statement the
next one can only start behind the line in which the first one ends, so neither a semicolon nor
anything else on the rest of that line matters.
-/

namespace SchemaScaffold.Source

open Text

/-! ## The grammar of a statement -/

/-- An import statement up to the closing quote of its module. -/
inductive IsImport (list module : List Char) : List Char → Prop
  | intro {indent gap inner outer : List Char} {opening closing : Char} :
      (∀ c ∈ indent, isInlineBlank c = true) → (∀ c ∈ gap, isBlank c = true) → '\x7d' ∉ list →
      (∀ c ∈ inner, isBlank c = true) → (∀ c ∈ outer, isBlank c = true) →
      isImportQuote opening = true → (∀ c ∈ module, isImportQuote c = false) → module ≠ [] →
      isImportQuote closing = true →
      IsImport list module (indent ++ ("import".toList ++ (gap ++ '\x7b' :: (list ++ '\x7d' ::
        (inner ++ ("from".toList ++ (outer ++ opening :: (module ++ [closing]))))))))

/-- The text between the braces of the import statement at the start of a line, its module, and
what follows the closing quote. -/
def importParts? (cs : List Char) : Option (List Char × List Char × List Char) := do
  let cs ← dropText? "import".toList (skipInlineBlanks cs)
  let cs ← dropText? ['{'] (skipBlanks cs)
  let list := cs.takeWhile (· != '}')
  let cs ← dropText? ['}'] (cs.dropWhile (· != '}'))
  let cs ← dropText? "from".toList (skipBlanks cs)
  let (module, cs) ← quoted? isImportQuote (skipBlanks cs)
  some (list, module, cs)

theorem importAt?_eq (cs : List Char) : importAt? cs =
    (importParts? cs).map fun (list, module, rest) =>
      let rest := skipInlineBlanks (skipChar ';' rest)
      ({ list, module, endsLine := rest.head? == some '\n' }, skipChar '\n' rest) := by
  simp only [importAt?, importParts?, Option.bind_eq_bind, Option.map_bind, Function.comp_def,
    Option.map_some]

theorem skipBlanks_of_blank {blanks : List Char} (h : ∀ c ∈ blanks, isBlank c = true) {c : Char}
    (hc : isBlank c = false) (rest : List Char) : skipBlanks (blanks ++ c :: rest) = c :: rest := by
  rw [skipBlanks, List.dropWhile_append_of_pos h, List.dropWhile_cons_of_neg (by simp [hc])]

/-- What is read is a statement, and every statement is read. -/
theorem importParts?_iff {cs list module rest : List Char} :
    importParts? cs = some (list, module, rest) ↔
      ∃ text, IsImport list module text ∧ cs = text ++ rest := by
  constructor
  · intro h
    simp only [importParts?, Option.bind_eq_bind, Option.bind_eq_some_iff] at h
    obtain ⟨a, ha, b, hb, c, hc, d, hd, ⟨m, e⟩, he, hparts⟩ := h
    cases hparts
    obtain ⟨opening, closing, hopening, hclosing, hmodule, hne, hquoted⟩ := quoted?_eq_some he
    have hblank : ∀ (p : Char → Bool) (cs : List Char), ∀ x ∈ cs.takeWhile p, p x = true :=
      fun p cs x hx => List.all_eq_true.mp List.all_takeWhile x hx
    have hlist : '\x7d' ∉ b.takeWhile (· != '\x7d') := fun hmem => by
      simpa using hblank (· != '\x7d') b _ hmem
    refine ⟨_, .intro (hblank _ cs) (hblank _ a) hlist (hblank _ c) (hblank _ d) hopening hmodule hne
      hclosing, ?_⟩
    have hparts : ∀ cs : List Char, cs.takeWhile isBlank ++ skipBlanks cs = cs := fun cs =>
      List.takeWhile_append_dropWhile
    have hopen : skipBlanks a = '\x7b' :: b := dropText?_eq hb
    have hclose : b.dropWhile (· != '\x7d') = '\x7d' :: c := dropText?_eq hc
    simp only [List.append_assoc, List.cons_append, List.nil_append]
    rw [← hquoted, hparts, ← dropText?_eq hd, hparts, ← hclose, List.takeWhile_append_dropWhile,
      ← hopen, hparts, ← dropText?_eq ha]
    exact List.takeWhile_append_dropWhile.symm
  · rintro ⟨text, ⟨hindent, hgap, hlist, hinner, houter, hopening, hmodule, hne, hclosing⟩, rfl⟩
    have himport : ∀ more, skipInlineBlanks (_ ++ ("import".toList ++ more)) =
        "import".toList ++ more := fun more => List.dropWhile_append_of_pos hindent
    have hfrom : ∀ more, skipBlanks (_ ++ ("from".toList ++ more)) = "from".toList ++ more :=
      fun more => List.dropWhile_append_of_pos hinner
    have hbrace : ∀ c ∈ list, (c != '\x7d') = true := fun c hc => by
      simpa using fun he : c = '\x7d' => hlist (he ▸ hc)
    have hclose : ∀ more, (list ++ '\x7d' :: more).takeWhile (· != '\x7d') = list ∧
        (list ++ '\x7d' :: more).dropWhile (· != '\x7d') = '\x7d' :: more := fun more => by
      rw [List.takeWhile_append_of_pos hbrace, List.dropWhile_append_of_pos hbrace]
      simp
    have hbraced : ∀ (c : Char) (more), dropText? [c] (c :: more) = some more := fun c =>
      dropText?_append [c]
    have hnot : ∀ {c : Char}, isImportQuote c = true → isBlank c = false := by
      intro c hc
      simp only [isImportQuote, Bool.or_eq_true, beq_iff_eq] at hc
      rcases hc with rfl | rfl <;> decide
    simp only [importParts?, List.append_assoc, List.cons_append, List.nil_append, himport,
      dropText?_append, Option.bind_eq_bind, Option.bind_some,
      skipBlanks_of_blank hgap (by decide : isBlank '\x7b' = false), hclose, hbraced, hfrom,
      skipBlanks_of_blank houter (hnot hopening), quoted?_of_quotes hopening hclosing hmodule hne]

/-- Before its brace an import statement has words and blanks only. -/
theorem importAt?_before {cs : List Char} {found : ImportStatement × List Char}
    (h : importAt? cs = some found) : ∃ front back, cs = front ++ '\x7b' :: back ∧
      ∀ c ∈ front, isBlank c = true ∨ isWordChar c = true := by
  rw [importAt?_eq] at h
  obtain ⟨⟨list, module, rest⟩, hparts, -⟩ := Option.map_eq_some_iff.mp h
  obtain ⟨text, hstatement, rfl⟩ := importParts?_iff.mp hparts
  obtain ⟨hindent, hgap, -, -, -, -, -, -, -⟩ := hstatement
  rename_i indent gap inner outer opening closing
  have hself : indent.takeWhile isInlineBlank = indent := List.takeWhile_eq_self_iff.mpr hindent
  simp only [List.append_assoc, List.cons_append]
  rw [← List.append_assoc, ← List.append_assoc]
  refine ⟨_, _, rfl, ?_⟩
  simp only [List.forall_mem_append]
  exact ⟨⟨fun c hc => .inl (isBlank_of_inline (hself.symm ▸ hc)), forall_blank_or_word (by decide)⟩,
    fun c hc => .inl (hgap c hc)⟩

theorem stopsAt_importAt? {stop : Char} (hblank : isBlank stop = false)
    (hword : isWordChar stop = false) (hbrace : stop ≠ '\x7b') : StopsAt importAt? stop :=
  .of_before (by decide) hblank hword hbrace fun h => importAt?_before h

/-! ## One statement after the other -/

theorem splitImports_some {lineStart : Bool} {cs rest : List Char} {statement : ImportStatement}
    (h : importHere? lineStart cs = some (statement, rest)) : splitImports lineStart cs =
      (statement :: (splitImports statement.endsLine rest).1,
        (splitImports statement.endsLine rest).2) := by
  cases cs with
  | nil =>
    have hlength := importHere?_length h
    cases hlength
  | cons c cs =>
    rw [splitImports]
    split
    · rename_i hsome
      rw [h] at hsome
      cases hsome
      rfl
    · rename_i hnone
      rw [h] at hnone
      cases hnone

theorem splitImports_none {lineStart : Bool} {c : Char} {cs : List Char}
    (h : importHere? lineStart (c :: cs) = none) : splitImports lineStart (c :: cs) =
      ((splitImports (c == '\n') cs).1, c :: (splitImports (c == '\n') cs).2) := by
  rw [splitImports]
  split
  · rename_i hsome
    rw [h] at hsome
    cases hsome
  · rfl

/-- Lines that hold no import statement are kept. -/
theorem splitImports_skips {a : List Char} (ha : Skips importAt? a) (b : List Char) :
    splitImports true (a ++ b) = ((splitImports true b).1, a ++ (splitImports true b).2) := by
  have hall : ∀ (a : List Char) (lineStart : Bool), EndsLine a →
      (∀ x ∈ lineStarts lineStart a, ∀ rest, importAt? (x ++ rest) = none) →
      splitImports lineStart (a ++ b) = ((splitImports (lineStart || !a.isEmpty) b).1,
        a ++ (splitImports (lineStart || !a.isEmpty) b).2) := by
    intro a
    induction a with
    | nil => simp
    | cons c a ih =>
      intro lineStart hline hnone
      have hhere : importHere? lineStart (c :: (a ++ b)) = none := by
        cases lineStart with
        | false => rfl
        | true => exact hnone (c :: a) (by simp [lineStarts]) b
      have hflag : ((c == '\n') || !a.isEmpty) = true := by
        cases a with
        | nil => simpa using hline c rfl
        | cons d a => simp
      have htail := ih (c == '\n') hline.tail fun x hx =>
        hnone x (by rw [lineStarts]; exact List.mem_append_right _ hx)
      rw [hflag] at htail
      rw [List.cons_append, splitImports_none hhere, htail]
      simp
  simpa using hall a true ha.endsLine ha.none

theorem splitImports_of_skips {a : List Char} (ha : Skips importAt? a) :
    splitImports true a = ([], a) := by
  simpa [splitImports] using splitImports_skips ha []

/-! ## Line by line -/

/-- What follows the end of the line. -/
def nextLine (cs : List Char) : List Char := (cs.dropWhile (· != '\n')).tail

/-- The import statements of a text: what stands between the braces, and the module. -/
def statements (cs : List Char) : List (List Char × List Char) :=
  (splitImports true cs).1.map fun statement => (statement.list, statement.module)

theorem nextLine_break (cs : List Char) : nextLine ('\n' :: cs) = cs := rfl

theorem nextLine_cons {c : Char} (hc : c ≠ '\n') (cs : List Char) :
    nextLine (c :: cs) = nextLine cs := by
  simp [nextLine, hc]

/-- No statement starts before the next line does. -/
theorem splitImports_nextLine (cs : List Char) :
    (splitImports false cs).1 = (splitImports true (nextLine cs)).1 := by
  induction cs with
  | nil => rw [nextLine, List.dropWhile_nil, List.tail_nil, splitImports, splitImports]
  | cons c cs ih =>
    rw [splitImports_none rfl]
    by_cases hc : c = '\n'
    · rw [hc, nextLine_break, beq_self_eq_true]
    · rw [nextLine_cons hc, ← ih, beq_false_of_ne hc]

theorem statements_none {cs : List Char} (h : importParts? cs = none) :
    statements cs = statements (nextLine cs) := by
  cases cs with
  | nil => rfl
  | cons c cs =>
    have hhere : importHere? true (c :: cs) = none := by
      rw [importHere?, if_pos rfl, importAt?_eq, h]
      rfl
    rw [statements, splitImports_none hhere]
    by_cases hc : c = '\n'
    · rw [hc, nextLine_break, beq_self_eq_true, statements]
    · rw [nextLine_cons hc, beq_false_of_ne hc, splitImports_nextLine, statements]

/-- What a statement takes along behind its module is on its last line. -/
theorem nextLine_skip (cs : List Char) :
    nextLine (skipInlineBlanks (skipChar ';' cs)) = nextLine cs := by
  have hinline : ∀ cs, nextLine (skipInlineBlanks cs) = nextLine cs := by
    intro cs
    induction cs with
    | nil => rfl
    | cons c cs ih =>
      rw [skipInlineBlanks]
      by_cases hc : isInlineBlank c = true
      · have hbreak : c ≠ '\n' := by
          rintro rfl
          cases hc
        rw [List.dropWhile_cons_of_pos hc, nextLine_cons hbreak]
        exact ih
      · rw [List.dropWhile_cons_of_neg hc]
  rw [hinline]
  cases cs with
  | nil => rfl
  | cons c cs =>
    rw [skipChar]
    by_cases hc : c = ';'
    · rw [hc, nextLine_cons (by decide), beq_self_eq_true, if_pos rfl]
    · rw [if_neg (by simpa using hc)]

/-- After a statement the next line is read. -/
theorem statements_some {cs list module rest : List Char}
    (h : importParts? cs = some (list, module, rest)) :
    statements cs = (list, module) :: statements (nextLine rest) := by
  have hhere : importHere? true cs = importAt? cs := rfl
  rw [importAt?_eq, h, Option.map_some] at hhere
  rw [statements, splitImports_some hhere, List.map_cons, statements, ← nextLine_skip rest]
  dsimp only
  cases skipInlineBlanks (skipChar ';' rest) with
  | nil => rw [skipChar, nextLine, List.dropWhile_nil, List.tail_nil, splitImports, splitImports]
  | cons c cs =>
    rw [skipChar, List.head?_cons]
    by_cases hc : c = '\n'
    · rw [hc, nextLine_break]
      rfl
    · rw [if_neg (by simpa using hc), ← splitImports_nextLine]
      have hflag : (some c == some '\n') = false := by simpa using hc
      rw [hflag]

/-- The statements of a text are statements of the grammar. -/
theorem isImport_of_mem {cs : List Char} {said : List Char × List Char}
    (h : said ∈ statements cs) : ∃ text, IsImport said.1 said.2 text := by
  have hread : ∀ {lineStart cs statement rest}, importHere? lineStart cs = some (statement, rest) →
      ∃ text, IsImport statement.list statement.module text := by
    intro lineStart cs statement rest h
    cases lineStart with
    | false => cases h
    | true =>
      rw [importHere?, if_pos rfl, importAt?_eq] at h
      obtain ⟨⟨list, module, rest'⟩, hparts, he⟩ := Option.map_eq_some_iff.mp h
      cases he
      obtain ⟨text, hstatement, -⟩ := importParts?_iff.mp hparts
      exact ⟨text, hstatement⟩
  have hall : ∀ (lineStart : Bool) (cs : List Char), ∀ statement ∈ (splitImports lineStart cs).1,
      ∃ text, IsImport statement.list statement.module text := by
    intro lineStart cs
    fun_induction splitImports lineStart cs with
    | case1 => simp
    | case2 lineStart c cs statement rest hhere _ statements kept hsplit ih =>
      rw [hsplit] at ih
      exact List.forall_mem_cons.mpr ⟨hread hhere, ih⟩
    | case3 lineStart c cs hhere statements kept hsplit ih =>
      rw [hsplit] at ih
      exact ih
  obtain ⟨statement, hstatement, rfl⟩ := List.mem_map.mp h
  exact hall true cs statement hstatement

/-- The imports of a text are those of its statements, in order. -/
theorem extractImports_eq (cs : List Char) : extractImports cs =
    (statements cs).foldl (fun imports statement =>
      Imports.add (String.ofList statement.2) (importSymbols statement.1) imports) [] := by
  rw [extractImports, statements, List.foldl_map]

end SchemaScaffold.Source
