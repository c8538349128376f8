import SchemaScaffold.Proofs.Source.Reading
import SchemaScaffold.Proofs.Table.Definition

/-!
The text of a table as code. Every column is a line that closes what it opens, so a table is one
statement: an exported constant, and a call whose arguments are one bracketed block.
-/

namespace SchemaScaffold

open Source Naming Text

/-! ## The pieces of a text -/

/-- The statement that exports a constant made by one call. -/
def statement (name function arguments : List Char) : List Char :=
  "export const ".toList ++ (name ++ (" = ".toList ++ (function ++ '(' :: (arguments ++ ");".toList))))

theorem inline_statement {name function arguments : List Char}
    (hname : ∀ c ∈ name, isNameChar c = true) (hfunction : ∀ c ∈ function, isNameChar c = true)
    (harguments : Inline arguments) : Inline (statement name function arguments) := by
  refine Reads.append (.of_eq rfl) (Reads.append (reads_name hname) (Reads.append (.of_eq rfl)
    (Reads.append (reads_name hfunction) ?_)))
  exact Reads.append (s := ['(']) (.of_eq rfl) ((harguments.frame [')']).append (.of_eq rfl))

/-- A column as the table block writes it. -/
def Column.chunk (c : Column) : List Char := c.line.toList ++ ",\n".toList

namespace Table

/-- What stands between the parentheses of the table call. -/
def arguments (t : Table) : List Char :=
  "\"".toList ++ (t.name.toList ++ ("\", \x7b\n".toList ++ (t.columns.flatMap Column.chunk ++ ['\x7d'])))

/-- The native enum declarations, each on its line, and the blank line after them. -/
def preamble (t : Table) : List Char :=
  if t.declarations.isEmpty then []
  else t.declarations.flatMap (fun declaration => declaration.toList ++ ['\n']) ++ ['\n']

end Table

theorem intercalate_concat {separator : List Char} {lines : List (List Char)} (h : lines ≠ []) :
    separator.intercalate lines ++ separator = lines.flatMap (· ++ separator) := by
  induction lines with
  | nil => exact absurd rfl h
  | cons line lines ih =>
    cases lines with
    | nil => simp
    | cons line' lines =>
      rw [List.intercalate_cons_cons, List.append_assoc, List.append_assoc, ih (by simp)]
      simp

theorem Table.columns_toList (t : Table) (h : t.columns ≠ []) :
    ",\n".toList.intercalate (t.columns.map fun c => c.line.toList) ++ ",\n".toList =
      t.columns.flatMap Column.chunk := by
  have hchunk : Column.chunk = fun c => c.line.toList ++ ",\n".toList := rfl
  rw [intercalate_concat (by simpa using h), List.flatMap_map, hchunk]

theorem Table.renderBlock_toList (t : Table) (h : t.columns ≠ []) : t.renderBlock.toList =
    statement t.exportName.toList t.function.toList t.arguments := by
  have hclose : ",\n\x7d);".toList = ",\n".toList ++ ('\x7d' :: ");".toList) := rfl
  have hopen : "(\"".toList = '(' :: "\"".toList := rfl
  unfold Table.renderBlock statement Table.arguments
  rw [← t.columns_toList h]
  simp only [String.toList_append, String.toList_intercalate, List.map_map, Function.comp_def,
    hclose, hopen, List.append_assoc, List.cons_append, List.nil_append]

theorem Table.render_toList (t : Table) : t.render.toList = t.preamble ++ t.renderBlock.toList := by
  unfold Table.render Table.preamble
  split
  · rw [List.nil_append]
  · rename_i h
    have hbreak : "\n\n".toList = ['\n'] ++ ['\n'] := by decide
    have hone : "\n".toList = ['\n'] := by decide
    have hlines : ['\n'].intercalate (t.declarations.map String.toList) ++ ['\n'] =
        t.declarations.flatMap fun declaration => declaration.toList ++ ['\n'] := by
      rw [intercalate_concat (by simpa using h), List.flatMap_map]
    rw [String.toList_append, String.toList_append, String.toList_intercalate, hone, hbreak,
      ← List.append_assoc, hlines]

theorem inline_flatMap {α : Type} {f : α → List Char} {as : List α} (h : ∀ a ∈ as, Inline (f a)) :
    Inline (as.flatMap f) := by
  induction as with
  | nil => exact .nil _
  | cons a as ih =>
    rw [List.flatMap_cons]
    exact Inline.append (h a (by simp)) (ih fun b hb => h b (List.mem_cons_of_mem _ hb))

namespace Mapping

/-! ## Columns -/

variable {awaited : List Char}

theorem reads_keyColumn (dialect : Dialect) (uuid : Bool) :
    Inline (keyColumn dialect uuid).line.toList := by
  simp only [keyColumn, Column.line, String.toList_append]
  cases dialect <;> cases uuid <;>
    · simp only [standardId]
      repeat rw [String.toList_ofList]
      decide

theorem snakeCase_timestamps :
    snakeCase "createdAt" = "created_at" ∧ snakeCase "updatedAt" = "updated_at" := by
  decide

theorem reads_stampColumn (dialect : Dialect) {key : String} (hkey : key ∈ timestampFields) :
    Inline (stampColumn dialect key).line.toList := by
  simp only [timestampFields, List.mem_cons, List.not_mem_nil, or_false] at hkey
  rcases hkey with rfl | rfl <;> cases dialect <;>
    · simp only [stampColumn, standardTimestamp, snakeCase_timestamps, Column.line, String.toList_append]
      repeat rw [String.toList_ofList]
      decide

theorem reads_enumLiteral (values : List String) :
    Reads (awaited, .code) (enumLiteral values).toList (awaited, .code) := by
  have hvalues : Reads (']' :: awaited, .code)
      (", ".toList.intercalate ((values.map jsonLiteral).map String.toList)) (']' :: awaited, .code) := by
    refine Reads.intercalate (.of_eq rfl) fun piece hpiece => ?_
    simp only [List.map_map, List.mem_map, Function.comp_apply] at hpiece
    obtain ⟨value, -, rfl⟩ := hpiece
    exact reads_jsonLiteral value
  simp only [enumLiteral, String.toList_append, String.toList_intercalate]
  exact (Reads.append (.of_eq rfl) hvalues).append (.of_eq rfl)

theorem column_chars {f : Field} (hf : f.Accepted) :
    ∀ c ∈ (snakeCase f.name).toList, isSnakeChar c = true :=
  snakeCase_chars (Field.isFieldName_chars hf.name).1

/-- The variable of a native enum. -/
def enumVariable (table : String) (f : Field) : String :=
  camelCase (enumTypeName table (snakeCase f.name)) ++ "Enum"

theorem enumTypeName_chars {table : String} (htable : ∀ c ∈ table.toList, isSnakeChar c = true)
    {f : Field} (hf : f.Accepted) :
    ∀ c ∈ (enumTypeName table (snakeCase f.name)).toList, isSnakeChar c = true := by
  unfold enumTypeName
  split
  · exact column_chars hf
  · simp only [String.toList_append, List.forall_mem_append]
    exact ⟨⟨htable, List.all_eq_true.mp (by decide)⟩, column_chars hf⟩

theorem enumVariable_chars {table : String} (htable : ∀ c ∈ table.toList, isSnakeChar c = true)
    {f : Field} (hf : f.Accepted) : ∀ c ∈ (enumVariable table f).toList, c.isAlphanum = true := by
  rw [enumVariable, String.toList_append, List.forall_mem_append]
  exact ⟨camelCase_chars fun c hc => isNameChar_of_isSnakeChar (enumTypeName_chars htable hf c hc),
    List.all_eq_true.mp (by decide)⟩

/-! ### The texts of a column -/

/-- The function that a field's column calls. -/
def called (dialect : Dialect) (table : String) (f : Field) : String :=
  if (standardType dialect f.type).nativeEnum then enumVariable table f
  else (standardType dialect f.type).builder

theorem called_chars {table : String} (htable : ∀ c ∈ table.toList, isSnakeChar c = true)
    {f : Field} (hf : f.Accepted) (dialect : Dialect) :
    (∀ c ∈ (called dialect table f).toList, c.isAlphanum = true) ∧
      (called dialect table f).toList ≠ [] := by
  unfold called
  split
  · exact ⟨enumVariable_chars htable hf, by simp [enumVariable]⟩
  · constructor
    · cases dialect <;> cases f.type <;> exact List.all_eq_true.mp (by decide)
    · cases dialect <;> cases f.type <;> decide

/-- What may stand behind the name of a column that is no enum. -/
def plainOptions : List String :=
  "" :: Dialect.all.flatMap fun dialect => FieldType.all.filterMap fun type =>
    match (standardType dialect type).options with
    | .fixed text => some (", " ++ text)
    | _ => none

/-- What stands behind the name of a column in its call. Only the values of an enum are told there,
unless the enum is a type of its own. -/
inductive CallOptions (dialect : Dialect) (f : Field) : String → Prop
  | plain {options : String} (hmem : options ∈ plainOptions)
      (h : (standardType dialect f.type).nativeEnum = false → f.isEnum = false) :
      CallOptions dialect f options
  | enumObject (h : (standardType dialect f.type).nativeEnum = false) :
      CallOptions dialect f (", " ++ ("\x7b enum: " ++ enumLiteral (f.enumValues.getD []) ++ " \x7d"))
  | enumList (h : (standardType dialect f.type).nativeEnum = false) :
      CallOptions dialect f (", " ++ enumLiteral (f.enumValues.getD []))

/-- A column that is given no values is no enum, unless the enum is a type of its own. -/
theorem standardType_options (dialect : Dialect) (type : FieldType) :
    (∃ text, (standardType dialect type).options = .fixed text) ∨
        (standardType dialect type).options = .none →
      (standardType dialect type).nativeEnum = false → (type == .enum) = false := by
  cases dialect <;> cases type <;>
    simp [standardType, sqliteColumn, postgresqlColumn, mysqlColumn]

/-- The call of a column: its function, the name of the column, and its options. -/
theorem builderCall_text (dialect : Dialect) (table : String) (f : Field) :
    ∃ options, CallOptions dialect f options ∧
      (builderCall (standardType dialect f.type) f table).1 =
        called dialect table f ++ "(\"" ++ snakeCase f.name ++ "\"" ++ options ++ ")" := by
  have hplain := standardType_options dialect f.type
  have hempty : "" ∈ plainOptions := List.mem_cons_self
  unfold called builderCall
  split
  · rename_i hnative
    refine ⟨"", .plain hempty fun h => absurd (hnative.symm.trans h) (by decide), ?_⟩
    have hclose : "\")" = "\"" ++ ("" ++ ")") := by decide
    simp only [enumVariable, hclose, String.append_assoc]
  · rename_i hnative
    have hnative := eq_false_of_ne_true hnative
    refine ⟨_, ?_, rfl⟩
    cases hoptions : (standardType dialect f.type).options with
    | none => exact .plain hempty (hplain (.inr hoptions))
    | fixed text =>
      refine .plain (List.mem_cons_of_mem _ (List.mem_flatMap.mpr ⟨dialect, dialect.mem_all, ?_⟩))
        (hplain (.inl ⟨text, hoptions⟩))
      exact List.mem_filterMap.mpr ⟨f.type, f.type.mem_all, by rw [hoptions]; rfl⟩
    | enumObject => exact .enumObject hnative
    | enumList => exact .enumList hnative

/-! ### The line of a field -/

theorem reads_options {dialect : Dialect} {f : Field} {options : String}
    (h : CallOptions dialect f options) :
    Reads (awaited, .code) options.toList (awaited, .code) := by
  cases h with
  | plain hmem =>
    have hall : ∀ options ∈ plainOptions, Inline options.toList := by decide
    simpa using (hall _ hmem).frame awaited
  | enumObject =>
    simp only [String.toList_append]
    exact Reads.append (.of_eq rfl)
      ((Reads.append (.of_eq rfl) (reads_enumLiteral _)).append (.of_eq rfl))
  | enumList =>
    rw [String.toList_append]
    exact Reads.append (.of_eq rfl) (reads_enumLiteral _)

theorem reads_call {table : String} (htable : ∀ c ∈ table.toList, isSnakeChar c = true) {f : Field}
    (hf : f.Accepted) (dialect : Dialect) :
    Inline (builderCall (standardType dialect f.type) f table).1.toList := by
  obtain ⟨options, hoptions, hcall⟩ := builderCall_text dialect table f
  have hname : Inline (called dialect table f).toList :=
    reads_name fun c hc => isNameChar_of_isAlphanum ((called_chars htable hf dialect).1 c hc)
  have hopen := Reads.append (t := "(\"".toList) hname (.of_eq rfl)
  have hargument := (hopen.append (reads_snake (column_chars hf))).append (t := "\"".toList) (.of_eq rfl)
  rw [hcall]
  simp only [String.toList_append]
  exact (hargument.append (reads_options hoptions)).append (.of_eq rfl)

theorem reads_modifiers (f : Field) : Inline (modifiers f).toList := by
  unfold modifiers
  rw [String.toList_append]
  refine Inline.append ?_ ?_ <;> split <;> decide

theorem target_chars {f : Field} (hf : f.Accepted) (href : f.isReference = true) :
    ∀ c ∈ (tableVariable (f.target.getD "")).toList, c.isAlphanum = true :=
  camelCase_chars (nameChars_plural (Field.isModelName_chars (hf.target href)))

theorem reads_reference {f : Field} (hf : f.Accepted) (dialect : Dialect) (table : String) :
    Inline (reference f dialect table).1.toList := by
  rcases reference_text f dialect table with ⟨-, he⟩ | ⟨href, he | he⟩ <;> rw [he]
  · exact .nil _
  all_goals
    have htarget := fun c hc => isNameChar_of_isAlphanum (target_chars hf href c hc)
    simp only [String.toList_append]
  · exact Reads.append (Reads.append (.of_eq rfl) (reads_name htarget)) (.of_eq rfl)
  · have hannotation : ∀ c ∈ dialect.anyColumnType.toList, isNameChar c = true := by
      cases dialect <;> exact List.all_eq_true.mp (by decide)
    exact Reads.append (Reads.append (Reads.append (Reads.append (.of_eq rfl)
      (reads_name hannotation)) (.of_eq rfl)) (reads_name htarget)) (.of_eq rfl)

theorem reads_fieldColumn {table : String} (htable : ∀ c ∈ table.toList, isSnakeChar c = true)
    {f : Field} (hf : f.Accepted) (dialect : Dialect) :
    Inline (fieldColumn dialect table f).line.toList := by
  simp only [Column.line, fieldColumn, String.toList_append]
  refine Inline.append (Inline.append (Inline.append (by decide) ?_) (by decide)) ?_
  · exact reads_name (Field.isFieldName_chars hf.name).1
  · exact ((reads_call htable hf dialect).append (reads_modifiers f)).append
      (reads_reference hf dialect table)

/-! ## Native enums -/

/-- What stands between the parentheses of an enum declaration. -/
def enumArguments (table : String) (f : Field) : List Char :=
  "\"".toList ++ ((enumTypeName table (snakeCase f.name)).toList ++
    ("\", ".toList ++ (enumLiteral (f.enumValues.getD [])).toList))

/-- The declaration of a native enum. -/
def enumDeclaration (table : String) (f : Field) : List Char :=
  statement (enumVariable table f).toList "pgEnum".toList (enumArguments table f)

theorem inline_enumArguments {table : String} (htable : ∀ c ∈ table.toList, isSnakeChar c = true)
    {f : Field} (hf : f.Accepted) : Inline (enumArguments table f) :=
  Reads.append (.of_eq rfl) (Reads.append (reads_snake (enumTypeName_chars htable hf))
    (Reads.append (.of_eq rfl) (reads_enumLiteral _)))

theorem standardType_nativeEnum (dialect : Dialect) (fieldType : FieldType) :
    (standardType dialect fieldType).nativeEnum = true ↔ dialect = .postgresql ∧ fieldType = .enum := by
  cases dialect <;> cases fieldType <;> decide

/-- The fields of a table that become native enums. -/
def nativeEnums (dialect : Dialect) (fields : List Field) : List Field :=
  fields.filter fun f => (standardType dialect f.type).nativeEnum

theorem enumDeclaration_toList (table : String) (f : Field) :
    ("export const " ++ enumVariable table f ++ " = " ++ "pgEnum" ++ "(\"" ++
      enumTypeName table (snakeCase f.name) ++ "\", " ++ enumLiteral (f.enumValues.getD []) ++
        ");").toList = enumDeclaration table f := by
  have hopen : "(\"".toList = '(' :: "\"".toList := by decide
  unfold enumDeclaration statement enumArguments
  simp only [String.toList_append, hopen, List.append_assoc, List.cons_append, -String.reduceToList]

theorem fieldColumn_declarations (dialect : Dialect) (table : String) (f : Field) :
    (fieldColumn dialect table f).declarations.map String.toList =
      if (standardType dialect f.type).nativeEnum then [enumDeclaration table f] else [] := by
  unfold fieldColumn builderCall
  by_cases h : (standardType dialect f.type).nativeEnum = true
  · obtain ⟨rfl, htype⟩ := (standardType_nativeEnum _ _).mp h
    rw [if_pos h, if_pos h, htype, ← enumDeclaration_toList]
    rfl
  · rw [if_neg h, if_neg h]
    rfl

end Mapping

namespace Definition

variable (d : Definition)

theorem inline_line {c : Column} (hc : c ∈ d.table.columns) : Inline c.line.toList := by
  rcases d.column_cases hc with rfl | ⟨f, hf, rfl⟩ | ⟨key, hkey, rfl⟩
  · exact Mapping.reads_keyColumn _ _
  · exact Mapping.reads_fieldColumn d.name_chars (d.field_accepted hf) _
  · exact Mapping.reads_stampColumn _ hkey

theorem inline_arguments : Inline d.table.arguments := by
  have hcolumns : Inline (d.table.columns.flatMap Column.chunk) :=
    inline_flatMap fun c hc => (d.inline_line hc).append (by decide)
  unfold Table.arguments
  exact Reads.append (.of_eq rfl) (Reads.append (reads_snake d.name_chars)
    (Reads.append (.of_eq rfl) (Reads.append (hcolumns.frame ['\x7d']) (.of_eq rfl))))

theorem columns_ne_nil : d.table.columns ≠ [] := by
  rw [d.columns_eq]
  simp

theorem function_ne_nil : d.table.function.toList ≠ [] := by
  rw [d.function_eq]
  cases d.dialect <;> decide

theorem function_alphanum : ∀ c ∈ d.table.function.toList, c.isAlphanum = true := by
  rw [d.function_eq]
  cases d.dialect <;> exact List.all_eq_true.mp (by decide)

theorem renderBlock_eq : d.table.renderBlock.toList =
    statement d.table.exportName.toList d.table.function.toList d.table.arguments :=
  d.table.renderBlock_toList d.columns_ne_nil

theorem inline_renderBlock : Inline d.table.renderBlock.toList := by
  rw [d.renderBlock_eq]
  exact inline_statement (fun c hc => isNameChar_of_isAlphanum (d.exportName_chars c hc))
    (fun c hc => isNameChar_of_isAlphanum (d.function_alphanum c hc)) d.inline_arguments

/-- The declarations of a table are those of its native enums, in field order. -/
theorem declarations_eq : d.table.declarations.map String.toList =
    (Mapping.nativeEnums d.dialect d.fields).map (Mapping.enumDeclaration d.table.name) := by
  have hfields : ∀ fields : List Field,
      (fields.flatMap fun f => (Mapping.fieldColumn d.dialect d.table.name f).declarations.map
        String.toList) =
      (Mapping.nativeEnums d.dialect fields).map (Mapping.enumDeclaration d.table.name) := by
    intro fields
    induction fields with
    | nil => rfl
    | cons f fields ih =>
      rw [List.flatMap_cons, ih, Mapping.fieldColumn_declarations]
      simp only [Mapping.nativeEnums, List.filter_cons]
      split <;> rfl
  have hstamps : ∀ keys : List String,
      (keys.map (Mapping.stampColumn d.dialect)).flatMap Column.declarations = [] := by
    intro keys
    simp [Mapping.stampColumn]
  rw [Table.declarations, d.columns_eq, List.cons_append, List.flatMap_cons, List.flatMap_append]
  simp only [Mapping.keyColumn, List.nil_append, List.map_append]
  rw [List.map_flatMap, List.flatMap_map, hfields]
  split
  · simp [hstamps]
  · simp

/-- The declarations of a table's native enums, one a line. -/
theorem preamble_eq : d.table.preamble =
    if Mapping.nativeEnums d.dialect d.fields = [] then []
    else (Mapping.nativeEnums d.dialect d.fields).flatMap (fun f =>
      Mapping.enumDeclaration d.table.name f ++ ['\n']) ++ ['\n'] := by
  have hempty : d.table.declarations.isEmpty = true ↔ Mapping.nativeEnums d.dialect d.fields = [] := by
    rw [List.isEmpty_iff, ← List.map_eq_nil_iff (f := String.toList), d.declarations_eq,
      List.map_eq_nil_iff]
  have hlines : d.table.declarations.flatMap (fun declaration => declaration.toList ++ ['\n']) =
      (Mapping.nativeEnums d.dialect d.fields).flatMap fun f =>
        Mapping.enumDeclaration d.table.name f ++ ['\n'] := by
    rw [← List.flatMap_map String.toList (· ++ ['\n']), d.declarations_eq, List.flatMap_map]
  unfold Table.preamble
  by_cases h : Mapping.nativeEnums d.dialect d.fields = []
  · rw [if_pos (hempty.mpr h), if_pos h]
  · rw [if_neg fun he => h (hempty.mp he), if_neg h, hlines]

theorem nativeEnum_accepted {f : Field} (hf : f ∈ Mapping.nativeEnums d.dialect d.fields) :
    f.Accepted :=
  d.field_accepted (List.mem_filter.mp hf).1

theorem inline_enumDeclaration {f : Field} (hf : f.Accepted) :
    Inline (Mapping.enumDeclaration d.table.name f) :=
  inline_statement (fun c hc => isNameChar_of_isAlphanum (Mapping.enumVariable_chars d.name_chars hf c hc))
    (List.all_eq_true.mp (by decide)) (Mapping.inline_enumArguments d.name_chars hf)

theorem inline_preamble : Inline d.table.preamble := by
  rw [d.preamble_eq]
  split
  · exact .nil _
  · exact (inline_flatMap fun f hf => (d.inline_enumDeclaration (d.nativeEnum_accepted hf)).append
      (by decide)).append (by decide)

/-- The whole text of a table reads as code. -/
theorem inline_render : Inline (d.table.render.toList ++ ['\n']) := by
  rw [d.table.render_toList]
  exact (d.inline_preamble.append d.inline_renderBlock).append (by decide)

end Definition
end SchemaScaffold
