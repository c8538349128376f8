import Mathlib.Data.List.DropRight
import SchemaScaffold.Proofs.Json.Texts
import SchemaScaffold.Proofs.Table.Lines

/-!
Enum values in the schema text. A column or the type beside it lists the values of its enum in square
brackets. Nothing around the list writes a bracket: no name does, since no change of case leads to
one, and neither do the builders and modifiers. So the list can be cut out by its first and its last
bracket, it stands on one line, and it is read as the values it was written for.
-/

namespace SchemaScaffold.Text

open LetterCase Naming

/-! ## Changes of case -/

/-- A case map that moves nothing onto the opening bracket. -/
def sparesBracket (specials : List (Nat × List Nat)) (runs : List (Nat × Nat × Nat × Int)) : Bool :=
  (specials.all fun entry => !entry.2.contains '['.toNat) &&
    runs.all fun (first, last, _, offset) => '['.toNat < first + offset || last + offset < '['.toNat

theorem ofNat_eq_bracket {n : Nat} (h : Char.ofNat n = '[') : n = '['.toNat := by
  by_cases hvalid : n.isValidChar
  · rw [Char.ofNat, dif_pos hvalid] at h
    exact congrArg Char.toNat h
  · rw [Char.ofNat, dif_neg hvalid] at h
    exact absurd h (by decide)

theorem bracket_not_mem_mapped {specials : List (Nat × List Nat)}
    {runs : List (Nat × Nat × Nat × Int)} (h : sparesBracket specials runs = true) {c : Char}
    (hc : c ≠ '[') : '[' ∉ mapped specials runs c := by
  obtain ⟨hspecials, hruns⟩ := Bool.and_eq_true_iff.mp h
  unfold mapped
  split
  · rename_i cs hcs
    obtain ⟨codes, hcodes, rfl⟩ := Option.map_eq_some_iff.mp hcs
    have hnone := List.all_eq_true.mp hspecials _ (mem_of_lookup hcodes)
    intro hmem
    obtain ⟨code, hcode, he⟩ := List.mem_map.mp hmem
    rw [ofNat_eq_bracket he] at hcode
    rw [List.contains_iff_mem.mpr hcode] at hnone
    cases hnone
  · rw [List.mem_singleton]
    cases hshift : shift? runs c with
    | none => exact fun he => hc he.symm
    | some d =>
      obtain ⟨run, hrun, he⟩ := List.exists_of_findSome?_eq_some hshift
      obtain ⟨first, last, stride, offset⟩ := run
      have hfar := List.all_eq_true.mp hruns _ hrun
      simp only [Bool.or_eq_true, decide_eq_true_eq] at hfar
      dsimp only at he
      split at he
      · rename_i hwithin
        simp only [Bool.and_eq_true, decide_eq_true_eq] at hwithin
        intro hd
        rw [Option.getD_some] at hd
        have := ofNat_eq_bracket ((Option.some.inj he).trans hd.symm)
        have hbracket : 0 < '['.toNat := by decide
        omega
      · cases he

theorem bracket_not_mem_lowerChar {c : Char} (hc : c ≠ '[') : '[' ∉ lowerChar c := by
  unfold lowerChar
  split
  · rename_i hascii
    have hmoved := ascii_forall (p := fun c => c ≠ '[' → c.toLower ≠ '[') (by decide) hascii hc
    exact fun hmem => hmoved (List.mem_singleton.mp hmem).symm
  · exact bracket_not_mem_mapped (by decide +kernel) hc

theorem bracket_not_mem_upperChar {c : Char} (hc : c ≠ '[') : '[' ∉ upperChar c := by
  unfold upperChar
  split
  · rename_i hascii
    have hmoved := ascii_forall (p := fun c => c ≠ '[' → c.toUpper ≠ '[') (by decide) hascii hc
    exact fun hmem => hmoved (List.mem_singleton.mp hmem).symm
  · exact bracket_not_mem_mapped (by decide +kernel) hc

theorem bracket_not_mem_lower {cs : List Char} (h : '[' ∉ cs) : '[' ∉ lower cs := by
  have hgo : ∀ before, '[' ∉ lowerAfter before cs := by
    induction cs with
    | nil => exact fun _ => List.not_mem_nil
    | cons c cs ih =>
      intro before
      rw [List.mem_cons, not_or] at h
      rw [lowerAfter]
      split
      · rw [List.mem_cons, not_or]
        refine ⟨?_, ih h.2 _⟩
        split <;> decide
      · exact List.not_mem_append (bracket_not_mem_lowerChar (Ne.symm h.1)) (ih h.2 _)
  exact hgo false

theorem bracket_not_mem_capitalize {cs : List Char} (h : '[' ∉ cs) : '[' ∉ capitalize cs := by
  cases cs with
  | nil => exact h
  | cons c cs =>
    rw [List.mem_cons, not_or] at h
    rw [capitalize]
    exact List.not_mem_append (bracket_not_mem_upperChar (Ne.symm h.1)) h.2

end SchemaScaffold.Text

namespace SchemaScaffold.Naming

open Text

theorem bracket_not_mem_camelCase {s : String} (h : '[' ∉ s.toList) : '[' ∉ (camelCase s).toList := by
  have hwords : ∀ w ∈ words s, '[' ∉ w := by
    intro w hw hmem
    have hflat : '[' ∈ (words s).flatten := List.mem_flatten.mpr ⟨w, hw, hmem⟩
    rw [words_flatten] at hflat
    exact h (List.mem_filter.mp hflat).1
  cases hw : words s with
  | nil => simp [camelCase, hw]
  | cons first others =>
    rw [hw, List.forall_mem_cons] at hwords
    rw [camelCase_toList s hw]
    refine List.not_mem_append (bracket_not_mem_lower hwords.1) fun hmem => ?_
    obtain ⟨w, hmap, hmem⟩ := List.mem_flatten.mp hmem
    obtain ⟨v, hv, rfl⟩ := List.mem_map.mp hmap
    exact bracket_not_mem_capitalize (hwords.2 v hv) hmem

end SchemaScaffold.Naming

namespace SchemaScaffold

open Naming Text

/-! ## Lists in brackets -/

/-- The text from the first opening bracket to the last closing bracket. -/
def bracketed (cs : List Char) : List Char := (cs.dropWhile (· != '[')).rdropWhile (· != ']')

/-- What stands around a list without brackets of its own is cut off. -/
theorem bracketed_append {front back : List Char} (hfront : '[' ∉ front) (hback : ']' ∉ back)
    (inner : List Char) :
    bracketed (front ++ ('[' :: (inner ++ [']']) ++ back)) = '[' :: (inner ++ [']']) := by
  have hopen : ∀ c ∈ front, (c != '[') = true := fun c hc =>
    bne_iff_ne.mpr fun he => hfront (he ▸ hc)
  have hclose : ∀ c ∈ back.reverse, (c != ']') = true := fun c hc =>
    bne_iff_ne.mpr fun he => hback (List.mem_reverse.mp (he ▸ hc))
  rw [bracketed, List.dropWhile_append_of_pos hopen, List.cons_append, List.dropWhile_cons_of_neg
    (by decide), List.rdropWhile, ← List.cons_append, List.reverse_append,
    List.dropWhile_append_of_pos hclose, ← List.cons_append, List.reverse_concat,
    List.dropWhile_cons_of_neg (by decide), ← List.reverse_concat, List.reverse_reverse]

theorem enumLiteral_toList (values : List String) : (enumLiteral values).toList =
    '[' :: (", ".toList.intercalate ((values.map jsonLiteral).map String.toList) ++ [']']) := by
  simp only [enumLiteral, String.toList_append, String.toList_intercalate]
  rfl

/-- A list of literals stands on one line. -/
theorem not_mem_enumLiteral {c : Char} (hc : jsonChar c ≠ [c]) (hescape : isEscape c = false)
    (houter : c ∉ ['[', ',', ' ', ']']) (values : List String) : c ∉ (enumLiteral values).toList := by
  have hmarks : c ≠ '[' ∧ c ∉ ", ".toList ∧ c ≠ ']' := by
    simp only [List.mem_cons, not_or] at houter
    exact ⟨houter.1, by simpa using ⟨houter.2.1, houter.2.2.1⟩, houter.2.2.2.1⟩
  rw [enumLiteral_toList, List.mem_cons, List.mem_append, List.mem_singleton, not_or, not_or]
  refine ⟨hmarks.1, fun hmem => ?_, hmarks.2.2⟩
  rcases mem_intercalate hmem with hmem | ⟨w, hw, hmem⟩
  · exact hmarks.2.1 hmem
  · rw [List.map_map] at hw
    obtain ⟨value, -, rfl⟩ := List.mem_map.mp hw
    exact not_mem_jsonLiteral hc hescape value hmem

/-! ## Columns of enums -/

/-- The text that lists the values of a column: its own expression, or, where enums are types of
their own, its single declaration. -/
def Column.listing? (c : Column) : Dialect → Option String
  | .postgresql =>
    match c.declarations with
    | [declaration] => some declaration
    | _ => none
  | _ => some c.expression

namespace Mapping

variable {f : Field}

theorem bracket_not_mem_modifiers (f : Field) : ']' ∉ (modifiers f).toList := by
  unfold modifiers
  cases f.nullable <;> cases f.unique <;> decide

theorem bracket_not_mem_column (hname : Field.isFieldName f.name = true) :
    '[' ∉ (snakeCase f.name).toList := by
  intro hmem
  have hsnake := snakeCase_chars (Field.isFieldName_chars hname).1 '[' hmem
  exact absurd hsnake (by decide)

/-- The type of an enum is named by its table and its column. -/
theorem bracket_not_mem_enumTypeName {table column : String}
    (htable : ∀ c ∈ table.toList, isWordChar c = true) (hcolumn : '[' ∉ column.toList) :
    '[' ∉ (enumTypeName table column).toList := by
  have hbracket : '[' ∉ table.toList := by
    intro hmem
    exact absurd (htable '[' hmem) (by decide)
  unfold enumTypeName
  split
  · exact hcolumn
  · rw [String.toList_append, String.toList_append]
    exact List.not_mem_append (List.not_mem_append hbracket (by decide)) hcolumn

/-- The list of values stands in its text between parts that write no bracket. -/
theorem listing_parts (henum : f.isEnum = true) (hname : Field.isFieldName f.name = true)
    {table : String} (htable : ∀ c ∈ table.toList, isWordChar c = true) (dialect : Dialect) :
    ∃ text front back, (fieldColumn dialect table f).listing? dialect = some text ∧
      text.toList = front ++ ((enumLiteral (f.enumValues.getD [])).toList ++ back) ∧
      '[' ∉ front ∧ ']' ∉ back := by
  have htype : f.type = .enum := by simpa [Field.isEnum] using henum
  have hreference : reference f dialect table = ("", []) := by
    simp [reference, Field.isReference, htype]
  have hcolumn := bracket_not_mem_column hname
  have hmodifiers := bracket_not_mem_modifiers f
  cases dialect with
  | sqlite =>
    refine ⟨_, "text(\"".toList ++ ((snakeCase f.name).toList ++ "\", \x7b enum: ".toList),
      " \x7d)".toList ++ (modifiers f).toList, rfl, ?_, ?_, ?_⟩
    · simp only [fieldColumn, hreference, htype]
      simp [builderCall, standardType, sqliteColumn, ColumnOptions.text?]
    · exact List.not_mem_append (by decide) (List.not_mem_append hcolumn (by decide))
    · exact List.not_mem_append (by decide) hmodifiers
  | postgresql =>
    have htypeName := bracket_not_mem_enumTypeName htable hcolumn
    have hlisting : (fieldColumn .postgresql table f).listing? .postgresql = some
        ("export const " ++ enumVariable table f ++ " = " ++ "pgEnum" ++ "(\"" ++
          enumTypeName table (snakeCase f.name) ++ "\", " ++
            enumLiteral (f.enumValues.getD []) ++ ");") := by
      simp only [Column.listing?, fieldColumn, htype]
      rfl
    refine ⟨_, "export const ".toList ++
      ((camelCase (enumTypeName table (snakeCase f.name))).toList ++ ("Enum = pgEnum(\"".toList ++
        ((enumTypeName table (snakeCase f.name)).toList ++ "\", ".toList))),
      ");".toList, hlisting, ?_, ?_, by decide⟩
    · simp [enumVariable]
    · have hvar := bracket_not_mem_camelCase htypeName
      exact List.not_mem_append (by decide) (List.not_mem_append hvar (List.not_mem_append (by decide)
        (List.not_mem_append htypeName (by decide))))
  | mysql =>
    refine ⟨_, "mysqlEnum(\"".toList ++ ((snakeCase f.name).toList ++ "\", ".toList),
      ")".toList ++ (modifiers f).toList, rfl, ?_, ?_, ?_⟩
    · simp only [fieldColumn, hreference, htype]
      simp [builderCall, standardType, mysqlColumn, ColumnOptions.text?]
    · exact List.not_mem_append (by decide) (List.not_mem_append hcolumn (by decide))
    · exact List.not_mem_append (by decide) hmodifiers

/-- Enum values survive into the text of the schema: under every dialect, the list of values is found
between the first and the last bracket of its text, is read as the values in their order, and stands
on one line. -/
theorem column_keeps_values {values : List String} (henum : f.isEnum = true)
    (hvalues : f.enumValues = some values) (hname : Field.isFieldName f.name = true) {table : String}
    (htable : ∀ c ∈ table.toList, isWordChar c = true) (dialect : Dialect) :
    ∃ c text, standard.column f dialect table = .ok c ∧ c.listing? dialect = some text ∧
      (Json.parse (String.ofList (bracketed text.toList))).map Json.Value.texts? = .ok (some values) ∧
      '\n' ∉ bracketed text.toList ∧ '\r' ∉ bracketed text.toList := by
  obtain ⟨text, front, back, hlisting, htext, hfront, hback⟩ :=
    listing_parts henum hname htable dialect
  have hcut : bracketed text.toList = (enumLiteral values).toList := by
    rw [htext, hvalues, Option.getD_some, enumLiteral_toList, bracketed_append hfront hback]
  refine ⟨fieldColumn dialect table f, text, standard_column dialect table f, hlisting, ?_, ?_, ?_⟩
  · rw [hcut, String.ofList_toList, Json.parse_enumLiteral, Except.map, Json.texts?_list]
  · rw [hcut]
    exact not_mem_enumLiteral (by decide) (by decide) (by decide) values
  · rw [hcut]
    exact not_mem_enumLiteral (by decide) (by decide) (by decide) values

/-- A nullable native enum whose values hold brackets, quotes, backslashes, a placeholder and line
breaks. -/
theorem column_keeps_values_status : ∃ c text,
    standard.column
      { name := "status", type := .enum, nullable := true
        enumValues := some ["a]", "[\"b\\", "$values", "\r\n", "é😀"] } .postgresql "posts" = .ok c ∧
    c.listing? .postgresql = some text ∧
    (Json.parse (String.ofList (bracketed text.toList))).map Json.Value.texts? =
      .ok (some ["a]", "[\"b\\", "$values", "\r\n", "é😀"]) ∧
    '\n' ∉ bracketed text.toList ∧ '\r' ∉ bracketed text.toList :=
  column_keeps_values rfl rfl (by decide) (List.all_eq_true.mp (by decide)) .postgresql

end Mapping
end SchemaScaffold
