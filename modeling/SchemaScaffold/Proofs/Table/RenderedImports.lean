import SchemaScaffold.Proofs.Source.CommentedImports
import SchemaScaffold.Proofs.Table.LegibleImports

/-!
Imports written and read back. Whatever is read from a text is legible, so each entry with a symbol
becomes one line, and these lines give the entries back in their order. The last line need not be
ended, as a line break behind a text belongs to none of its statements.
-/

namespace SchemaScaffold

namespace Source

/-! ## A line break at the end -/

/-- A statement ends with the quote behind its module. -/
theorem IsImport.ends {list module text : List Char} (h : IsImport list module text) :
    ∃ front closing, text = front ++ [closing] ∧ isImportQuote closing = true := by
  obtain ⟨-, -, -, -, -, -, -, -, hclosing⟩ := h
  rename_i indent gap inner outer opening closing
  refine ⟨indent ++ ("import".toList ++ (gap ++ '\x7b' :: (list ++ '\x7d' ::
    (inner ++ ("from".toList ++ (outer ++ opening :: module)))))), closing, ?_, hclosing⟩
  simp only [List.append_assoc, List.cons_append]

/-- What is read at the start of a text is read in front of one more line break. -/
theorem importParts?_concat (cs : List Char) : importParts? (cs ++ ['\n']) =
    (importParts? cs).map fun (list, module, rest) => (list, module, rest ++ ['\n']) := by
  cases h : importParts? cs with
  | some parts =>
    obtain ⟨list, module, rest⟩ := parts
    obtain ⟨text, hstatement, rfl⟩ := importParts?_iff.mp h
    exact importParts?_iff.mpr ⟨text, hstatement, List.append_assoc _ _ _⟩
  | none =>
    rw [Option.map_none, Option.eq_none_iff_forall_ne_some]
    rintro ⟨list, module, rest⟩ hparts
    obtain ⟨text, hstatement, hcs⟩ := importParts?_iff.mp hparts
    rcases List.eq_nil_or_concat rest with rfl | ⟨front, last, rfl⟩
    · -- the statement would end with the line break
      obtain ⟨before, closing, rfl, hclosing⟩ := hstatement.ends
      rw [List.append_nil] at hcs
      obtain ⟨-, hlast⟩ := List.append_inj' hcs rfl
      cases hlast
      cases hclosing
    · rw [List.concat_eq_append, ← List.append_assoc] at hcs
      obtain ⟨hfront, -⟩ := List.append_inj' hcs rfl
      have hread := importParts?_iff.mpr ⟨text, hstatement, hfront⟩
      rw [h] at hread
      cases hread

theorem nextLine_concat (cs : List Char) : nextLine (cs ++ ['\n']) = nextLine cs ++ ['\n'] ∨
    nextLine (cs ++ ['\n']) = [] ∧ nextLine cs = [] := by
  induction cs with
  | nil => exact .inr ⟨rfl, rfl⟩
  | cons c cs ih =>
    rw [List.cons_append]
    by_cases hc : c = '\n'
    · rw [hc]
      exact .inl rfl
    · rwa [nextLine_cons hc, nextLine_cons hc]

/-- A line break behind a text adds no statement and takes none away. By induction on the length:
each statement is read with what follows its line, and so is each line that has none. -/
theorem statements_concat (cs : List Char) : statements (cs ++ ['\n']) = statements cs := by
  induction hk : cs.length using Nat.strongRecOn generalizing cs with
  | ind k ih =>
    subst hk
    have hnext : ∀ rest : List Char, (nextLine rest).length < cs.length →
        statements (nextLine (rest ++ ['\n'])) = statements (nextLine rest) := by
      intro rest hshorter
      rcases nextLine_concat rest with hbreak | ⟨hnone, hnil⟩
      · rw [hbreak, ih _ hshorter _ rfl]
      · rw [hnone, hnil]
    have hread := importParts?_concat cs
    cases h : importParts? cs with
    | some parts =>
      obtain ⟨list, module, rest⟩ := parts
      rw [h, Option.map_some] at hread
      obtain ⟨text, hstatement, hcs⟩ := importParts?_iff.mp h
      have hshorter : (nextLine rest).length < cs.length := by
        obtain ⟨front, closing, rfl, -⟩ := hstatement.ends
        have hle := nextLine_length rest
        rw [hcs, List.length_append, List.length_append, List.length_singleton]
        omega
      rw [statements_some hread, statements_some h, hnext rest hshorter]
    | none =>
      rw [h, Option.map_none] at hread
      rw [statements_none hread, statements_none h]
      cases cs with
      | nil => rfl
      | cons c cs =>
        have hle := nextLine_length (c :: cs)
        rw [List.length_cons] at hle
        exact hnext (c :: cs) (by rw [List.length_cons]; omega)

theorem statements_nil : statements [] = [] := by
  rw [statements, splitImports, List.map_nil]

theorem extractImports_concat (cs : List Char) :
    extractImports (cs ++ ['\n']) = extractImports cs := by
  rw [extractImports_eq, extractImports_eq, statements_concat]

end Source

namespace Imports

open Source

/-! ## Writing and reading -/

theorem shown_shown (imports : Imports) : imports.shown.shown = imports.shown := by
  rw [shown, shown, List.filter_filter]
  simp only [Bool.and_self]

/-- Entries without symbols are not written. -/
theorem render_shown (imports : Imports) : imports.shown.render = imports.render := by
  rw [render, render, ← shown, ← shown, shown_shown]

/-- Legible imports are read as they were written. -/
theorem Legible.extractImports_render {imports : Imports} (h : Legible imports) :
    extractImports imports.render.toList = imports.shown := by
  by_cases hne : imports.shown = []
  · have hempty : (render []).toList = [] := rfl
    rw [← render_shown, hne, hempty, extractImports_eq, statements_nil, List.foldl_nil]
  · have hlines := h.shown.extractImports_lines []
    rwa [List.append_nil, ← render_toList hne, extractImports_concat, statements_nil] at hlines

/-- Reading is undone by writing. What was read from any text is written down and read again as it
was, in the same order, without the modules that have no symbol; and it is then written as before. -/
theorem extractImports_rendered (cs : List Char) :
    extractImports (extractImports cs).render.toList =
        (extractImports cs).filter (fun entry => !entry.2.isEmpty) ∧
      (extractImports (extractImports cs).render.toList).render = (extractImports cs).render := by
  have hread := (legible_extractImports cs).extractImports_render
  exact ⟨hread, by rw [hread, render_shown]⟩

/-- A list over two lines, a module without symbols, and one that comes twice. -/
example : extractImports (extractImports ("import \x7b b,\n  type  a \x7d from 'm'\n" ++
    "import \x7b \x7d from 'n'\nimport \x7b c, b \x7d from \"m\";").toList).render.toList =
      [("m", ["b", "type a", "c"])] := by
  decide +kernel

end Imports
end SchemaScaffold
