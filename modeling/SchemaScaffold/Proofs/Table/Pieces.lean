import SchemaScaffold.Proofs.Table.Code

/-!
What a table block is put together from: runs of plain characters, enum values as literals, and line
breaks after such a run. A property of texts that survives concatenation holds of every block if it
holds of these pieces.
-/

namespace SchemaScaffold

open Source Naming Text

/-- The printable ASCII characters, except those that make a comment or a literal of another kind. -/
def isPlain (c : Char) : Bool :=
  32 ≤ c.toNat && c.toNat < 127 && !(c == '*' || c == '/' || c == '\x27' || c == '\x60')

/-- A property that passes from pieces to texts. -/
structure Piecewise (P : List Char → Prop) (values : List String) : Prop where
  append : ∀ {a b}, P a → P b → P (a ++ b)
  plain : ∀ {s}, s.all isPlain = true → P s
  literal : ∀ value ∈ values, P (jsonLiteral value).toList

theorem isPlain_of_isAlphanum {c : Char} (h : c.isAlphanum = true) : isPlain c = true :=
  alphanum_forall (p := fun c => isPlain c = true) (by decide) h

theorem isPlain_of_isSnakeChar {c : Char} (h : isSnakeChar c = true) : isPlain c = true :=
  nameChar_forall (p := fun c => isSnakeChar c = true → isPlain c = true) (by decide)
    (isNameChar_of_isSnakeChar h) h

theorem plain_alphanum {s : List Char} (h : ∀ c ∈ s, c.isAlphanum = true) : s.all isPlain = true :=
  List.all_eq_true.mpr fun c hc => isPlain_of_isAlphanum (h c hc)

theorem plain_snake {s : List Char} (h : ∀ c ∈ s, isSnakeChar c = true) : s.all isPlain = true :=
  List.all_eq_true.mpr fun c hc => isPlain_of_isSnakeChar (h c hc)

theorem not_mem_of_plain {c : Char} (hc : isPlain c = false) {s : List Char}
    (h : s.all isPlain = true) : c ∉ s := by
  intro hmem
  rw [List.all_eq_true.mp h c hmem] at hc
  cases hc

/-- Every enum value of a list of fields. -/
def enumValues (fields : List Field) : List String := fields.flatMap fun f => f.enumValues.getD []

namespace Piecewise

variable {P : List Char → Prop} {values : List String} (h : Piecewise P values)

include h

theorem flatMap {α : Type} {f : α → List Char} {as : List α} (ha : ∀ a ∈ as, P (f a)) :
    P (as.flatMap f) := by
  induction as with
  | nil => exact h.plain (by simp)
  | cons a as ih =>
    rw [List.flatMap_cons]
    exact h.append (ha a (by simp)) (ih fun b hb => ha b (List.mem_cons_of_mem _ hb))

theorem enumLiteral {own : List String} (hown : ∀ value ∈ own, value ∈ values) :
    P (enumLiteral own).toList := by
  have hvalues : P (", ".toList.intercalate ((own.map jsonLiteral).map String.toList)) := by
    induction own with
    | nil => exact h.plain (by simp)
    | cons value own ih =>
      have ih := ih fun v hv => hown v (List.mem_cons_of_mem _ hv)
      cases own with
      | nil => simpa using h.literal value (hown value (by simp))
      | cons value' own =>
        simp only [List.map_cons, List.intercalate_cons_cons] at ih ⊢
        exact h.append (h.append (h.literal value (hown value (by simp))) (h.plain (by decide))) ih
  simp only [SchemaScaffold.enumLiteral, String.toList_append, String.toList_intercalate]
  exact h.append (h.append (h.plain (by decide)) hvalues) (h.plain (by decide))

theorem options {dialect : Dialect} {f : Field} (hown : ∀ value ∈ f.enumValues.getD [], value ∈ values)
    {options : String} (hoptions : Mapping.CallOptions dialect f options) : P options.toList := by
  cases hoptions with
  | plain hmem =>
    have hall : ∀ options ∈ Mapping.plainOptions, options.toList.all isPlain = true := by decide
    exact h.plain (hall _ hmem)
  | enumObject =>
    simp only [String.toList_append]
    exact h.append (h.plain (by decide))
      (h.append (h.append (h.plain (by decide)) (h.enumLiteral hown)) (h.plain (by decide)))
  | enumList =>
    rw [String.toList_append]
    exact h.append (h.plain (by decide)) (h.enumLiteral hown)

theorem fieldName (hline : ∀ {s}, s ≠ [] → s.all isPlain = true → P (s ++ ['\n']))
    {s : String} (hs : Field.isFieldName s = true) : P s.toList := by
  unfold Field.isFieldName at hs
  split at hs
  · cases hs
  · rename_i c cs hname
    obtain ⟨hc, hcs⟩ := Bool.and_eq_true_iff.mp hs
    have hplain : (chomp s.toList).1.all isPlain = true := by
      rw [hname]
      refine plain_alphanum (List.forall_mem_cons.mpr ⟨?_, List.all_eq_true.mp hcs⟩)
      simp [isAlphanum_eq, hc]
    rw [← chomp_append s.toList]
    rcases chomp_snd s.toList with hend | hend <;> rw [hend]
    · rw [List.append_nil]
      exact h.plain hplain
    · exact hline (by simp [hname]) hplain

theorem call {table : String} {f : Field} (htable : ∀ c ∈ table.toList, isSnakeChar c = true)
    (hf : f.Accepted) (hown : ∀ value ∈ f.enumValues.getD [], value ∈ values) (dialect : Dialect) :
    P (Mapping.builderCall (Mapping.standardType dialect f.type) f table).1.toList := by
  obtain ⟨options, hoptions, hcall⟩ := Mapping.builderCall_text dialect table f
  have hfunction : P (Mapping.called dialect table f).toList :=
    h.plain (plain_alphanum (Mapping.called_chars htable hf dialect).1)
  have hcolumn : P (snakeCase f.name).toList :=
    h.plain (plain_snake (Mapping.column_chars hf))
  rw [hcall]
  simp only [String.toList_append]
  exact h.append (h.append (h.append (h.append (h.append hfunction (h.plain (by decide))) hcolumn)
    (h.plain (by decide))) (h.options hown hoptions)) (h.plain (by decide))

theorem reference {f : Field} (hf : f.Accepted) (dialect : Dialect) (table : String) :
    P (Mapping.reference f dialect table).1.toList := by
  rcases Mapping.reference_text f dialect table with ⟨-, he⟩ | ⟨href, he | he⟩ <;> rw [he]
  · exact h.plain (by simp)
  all_goals
    have htarget : P (tableVariable (f.target.getD "")).toList :=
      h.plain (plain_alphanum (Mapping.target_chars hf href))
    simp only [String.toList_append]
  · exact h.append (h.append (h.plain (by decide)) htarget) (h.plain (by decide))
  · have hannotation : dialect.anyColumnType.toList.all isPlain = true := by
      cases dialect <;> decide
    exact h.append (h.append (h.append (h.append (h.plain (by decide)) (h.plain hannotation))
      (h.plain (by decide))) htarget) (h.plain (by decide))

theorem expression {table : String} {f : Field} (htable : ∀ c ∈ table.toList, isSnakeChar c = true)
    (hf : f.Accepted) (hown : ∀ value ∈ f.enumValues.getD [], value ∈ values) (dialect : Dialect) :
    P (Mapping.fieldColumn dialect table f).expression.toList := by
  have hmodifiers : P (Mapping.modifiers f).toList := by
    unfold Mapping.modifiers
    rw [String.toList_append]
    refine h.append (h.plain ?_) (h.plain ?_) <;> split <;> decide
  simp only [Mapping.fieldColumn, String.toList_append]
  exact h.append (h.append (h.call htable hf hown dialect) hmodifiers) (h.reference hf dialect table)

end Piecewise

theorem plain_keyColumn (dialect : Dialect) (uuid : Bool) :
    (Mapping.keyColumn dialect uuid).expression.toList.all isPlain = true := by
  cases dialect <;> cases uuid <;>
    · simp only [Mapping.keyColumn, Mapping.standardId]
      repeat rw [String.toList_ofList]
      decide

theorem plain_stampColumn (dialect : Dialect) {key : String} (hkey : key ∈ Mapping.timestampFields) :
    (Mapping.stampColumn dialect key).expression.toList.all isPlain = true := by
  simp only [Mapping.timestampFields, List.mem_cons, List.not_mem_nil, or_false] at hkey
  rcases hkey with rfl | rfl <;> cases dialect <;>
    · simp only [Mapping.stampColumn, Mapping.standardTimestamp, Mapping.snakeCase_timestamps, String.toList_append]
      repeat rw [String.toList_ofList]
      decide

namespace Definition

variable (d : Definition)

theorem key_isFieldName {c : Column} (hc : c ∈ d.table.columns) : Field.isFieldName c.key = true := by
  rcases d.column_cases hc with rfl | ⟨f, hf, rfl⟩ | ⟨key, hkey, rfl⟩
  · exact (by decide : Field.isFieldName "id" = true)
  · exact (d.field_accepted hf).name
  · simp only [Mapping.timestampFields, List.mem_cons, List.not_mem_nil, or_false] at hkey
    rcases hkey with rfl | rfl
    · exact (by decide : Field.isFieldName "createdAt" = true)
    · exact (by decide : Field.isFieldName "updatedAt" = true)

theorem function_plain : d.table.function.toList.all isPlain = true :=
  plain_alphanum d.function_alphanum

variable {P : List Char → Prop} (h : Piecewise P (enumValues d.fields))

include h

theorem piecewise_expression {c : Column} (hc : c ∈ d.table.columns) : P c.expression.toList := by
  rcases d.column_cases hc with rfl | ⟨f, hf, rfl⟩ | ⟨key, hkey, rfl⟩
  · exact h.plain (plain_keyColumn _ _)
  · refine h.expression d.name_chars (d.field_accepted hf) (fun value hvalue => ?_) _
    exact List.mem_flatMap.mpr ⟨f, hf, hvalue⟩
  · exact h.plain (plain_stampColumn _ hkey)

variable (hline : ∀ {s}, s ≠ [] → s.all isPlain = true → P (s ++ ['\n']))

include hline

theorem piecewise_chunk {c : Column} (hc : c ∈ d.table.columns) : P c.chunk := by
  simp only [Column.chunk, Column.line, String.toList_append]
  refine h.append (h.append (h.append (h.append (h.plain (by decide)) ?_) (h.plain (by decide)))
    (d.piecewise_expression h hc)) (hline (s := ",".toList) (by decide) (by decide))
  exact h.fieldName hline (d.key_isFieldName hc)

theorem piecewise_arguments : P d.table.arguments := by
  have hname : d.table.name.toList.all isPlain = true := plain_snake d.name_chars
  unfold Table.arguments
  refine h.append (h.plain (by decide)) (h.append (h.plain hname) (h.append ?_ (h.append ?_
    (h.plain (by decide)))))
  · exact hline (s := "\", \x7b".toList) (by decide) (by decide)
  · exact h.flatMap fun c hc => d.piecewise_chunk h hline hc

/-- The block of a table and the line break after it. -/
theorem piecewise_block : P (d.table.renderBlock.toList ++ ['\n']) := by
  have hname : d.table.exportName.toList.all isPlain = true := plain_alphanum d.exportName_chars
  have hend : P (");".toList ++ ['\n']) := hline (by decide) (by decide)
  have hcall : P ('(' :: (d.table.arguments ++ (");".toList ++ ['\n']))) :=
    h.append (a := ['(']) (h.plain (by decide)) (h.append (d.piecewise_arguments h hline) hend)
  rw [d.renderBlock_eq]
  unfold statement
  rw [List.append_assoc, List.append_assoc, List.append_assoc, List.append_assoc, List.cons_append,
    List.append_assoc]
  exact h.append (h.plain (by decide)) (h.append (h.plain hname) (h.append (h.plain (by decide))
    (h.append (h.plain d.function_plain) hcall)))

end Definition
end SchemaScaffold
