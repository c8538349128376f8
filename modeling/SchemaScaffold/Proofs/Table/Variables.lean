import SchemaScaffold.Proofs.Naming.Routes
import SchemaScaffold.Proofs.Table.Imports
import SchemaScaffold.Proofs.Table.Words

/-!
The variables of a schema. Tables are exported under plurals, and a plural does not end in `Enum`.
The variable of a native enum does; it is put together from the words of the table and of the column,
so a capital stands before its last word, and it is none of the builders that end in `Enum`.
-/

namespace SchemaScaffold

open Source Naming Text

namespace Mapping

/-- The type of an enum has the words of its table, then those of its column. -/
theorem enumTypeName_words {t s : String} (ht : ∀ c ∈ t.toList, isNameChar c = true)
    (hs : ∀ c ∈ s.toList, isNameChar c = true) (hne : snakeCase t ≠ "") :
    Naming.words (enumTypeName (snakeCase t) (snakeCase s)) =
      (Naming.words t).map lower ++ (Naming.words s).map lower := by
  have hparts : (enumTypeName (snakeCase t) (snakeCase s)).toList =
      (snakeCase t).toList ++ '_' :: (snakeCase s).toList := by
    rw [enumTypeName, if_neg (by simpa using hne), String.toList_append, String.toList_append]
    simp
  have hsmall : ∀ c ∈ (snakeCase t).toList ++ '_' :: (snakeCase s).toList, c.isUpper = false := by
    intro c hc
    rcases List.mem_append.mp hc with hc | hc
    · exact not_isUpper_snake (snakeCase_chars ht c hc)
    · rcases List.mem_cons.mp hc with rfl | hc
      · decide
      · exact not_isUpper_snake (snakeCase_chars hs c hc)
  rw [Naming.words, hparts, separate_of_small hsmall, fields_append isSeparator (by decide),
    fields_snakeCase ht, fields_snakeCase hs]

/-- A name that starts with a small letter has a first word that does. -/
theorem words_cons {s : String} {c : Char} {rest : List Char} (hs : s.toList = c :: rest)
    (hc : c.isLower = true) : ∃ w ws, Naming.words s = (c :: w) :: ws := by
  obtain ⟨rest', hrest⟩ := separate_cons c rest
  rw [Naming.words, hs, hrest]
  exact fields_cons isSeparator (alphanum_not_separator (by simp [isAlphanum_eq, hc])) rest'

/-- A capital stands in the variable of a native enum, before its last word. -/
theorem enumVariable_capital {t : String} (ht : ∀ c ∈ t.toList, isNameChar c = true)
    (hne : snakeCase t ≠ "") {f : Field} (hf : f.Accepted) :
    ∃ c ∈ (camelCase (enumTypeName (snakeCase t) (snakeCase f.name))).toList, c.isUpper = true := by
  obtain ⟨hs, c, rest, hc, hname⟩ := Field.isFieldName_chars hf.name
  obtain ⟨w, ws, hcolumn⟩ := words_cons hname hc
  obtain ⟨first, others, htable⟩ :=
    List.exists_cons_of_ne_nil fun hnil => hne ((snakeCase_eq_empty ht).mpr hnil)
  have hwords := enumTypeName_words ht hs hne
  rw [htable, hcolumn, List.map_cons, List.map_cons, List.cons_append] at hwords
  have hsmall := alphanum_forall (p := fun c => c.isLower = true → c.toLower.toUpper.isUpper = true)
    (by decide) (by simp [isAlphanum_eq, hc] : c.isAlphanum = true) hc
  have hword := (words_alphanum hs (hcolumn ▸ List.mem_cons_self : c :: w ∈ Naming.words f.name)).2
  have hlower : lower (c :: w) = c.toLower :: w.map Char.toLower :=
    lower_ascii fun d hd => isAlphanum_ascii (hword d hd)
  have hcapital : capitalize (lower (c :: w)) = c.toLower.toUpper :: w.map Char.toLower := by
    have hfirst := lower_alphanum hword c.toLower (hlower ▸ List.mem_cons_self)
    rw [hlower, capitalize_cons _ (isAlphanum_ascii (alphanum_of_small hfirst))]
  refine ⟨c.toLower.toUpper, ?_, hsmall⟩
  rw [camelCase_toList _ hwords, List.mem_append, List.mem_flatten]
  refine .inr ⟨_, List.mem_map_of_mem (List.mem_append_right _ List.mem_cons_self), ?_⟩
  rw [hcapital]
  exact List.mem_cons_self

end Mapping

namespace Definition

variable (d : Definition)

theorem exportName_last : EndsPlural d.table.exportName.toList := by
  rw [d.exportName_eq]
  exact (plural_last d.model_chars).camelCase d.plural_chars

theorem target_last {f : Field} (hf : f ∈ d.fields) (href : f.isReference = true) :
    EndsPlural (tableVariable (f.target.getD "")).toList := by
  have hchars := Field.isModelName_chars ((d.field_accepted hf).target href)
  exact (plural_last hchars).camelCase (nameChars_plural hchars)

theorem enumVariable_ends (table : String) (f : Field) :
    "Enum".toList <:+ (Mapping.enumVariable table f).toList := by
  rw [Mapping.enumVariable, String.toList_append]
  exact List.suffix_append _ _

/-- The variable of a native enum is nothing that a module provides. -/
theorem enumVariable_not_symbol (hname : d.table.name ≠ "") {f : Field} (hf : f ∈ d.fields)
    (dialect : Dialect) : Mapping.enumVariable d.table.name f ∉ Mapping.moduleSymbols dialect := by
  intro hmem
  have hall : ∀ dialect, ∀ s ∈ Mapping.moduleSymbols dialect, ∀ front,
      s.toList = front ++ "Enum".toList → ∀ c ∈ front, c.isUpper = false := by
    have hcheck : ∀ dialect, (Mapping.moduleSymbols dialect).all (fun s =>
        !"Enum".toList.isSuffixOf s.toList || (s.toList.take (s.length - 4)).all fun c => !c.isUpper) =
          true := by
      intro dialect
      cases dialect <;> decide +kernel
    intro dialect s hs front hfront c hc
    have hs := List.all_eq_true.mp (hcheck dialect) s hs
    have hlength : s.length - 4 = front.length := by
      rw [← String.length_toList, hfront]
      simp
    have hsuffix : "Enum".toList.isSuffixOf s.toList = true := by
      rw [List.isSuffixOf_iff_suffix, hfront]
      exact List.suffix_append _ _
    rw [hsuffix, hlength, hfront, List.take_left] at hs
    simpa using List.all_eq_true.mp hs c hc
  have hplural := d.name_eq
  rw [hplural] at hname hmem
  obtain ⟨c, hc, hupper⟩ := Mapping.enumVariable_capital d.plural_chars hname (d.field_accepted hf)
  have hsmall := hall dialect _ hmem _ (by rw [Mapping.enumVariable, String.toList_append]) c hc
  rw [hupper] at hsmall
  cases hsmall

end Definition
end SchemaScaffold
