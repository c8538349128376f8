import SchemaScaffold.Proofs.Source.Words
import SchemaScaffold.Proofs.Table.Lines

/-!
The words of a table. Few of them end like a table function or an enum: the function of the
statement, the builders and variables of enum columns, and what the names of fields and the values of
enums bring along. Everything else is passed over by a reader that looks for such words.
-/

namespace SchemaScaffold

open Source Naming Text

/-- A search for words that end like a table function or an enum. A word that is not called has to
end like an enum. -/
structure Search (mark : Use → Bool) : Prop where
  called : ∀ w, mark (w, true) = true → "Table".toList <:+ w ∨ "Enum".toList <:+ w
  named : ∀ w, mark (w, false) = true → "Enum".toList <:+ w

/-- A text that ends between two words and holds no word of the kind. -/
def isQuiet (s : List Char) : Bool :=
  (follow .between s).2 == .between &&
    (follow .between s).1.all fun u => !"Table".toList.isSuffixOf u.1 && !"Enum".toList.isSuffixOf u.1

/-- What a field must not bring along: a name, a target or a value with such a word. -/
structure Field.Unmarked (mark : Use → Bool) (f : Field) : Prop where
  name : ∀ w, w <:+: f.name.toList ++ [':'] → mark (w, false) = false
  target : f.isReference = true → mark ((tableVariable (f.target.getD "")).toList, false) = false
  values : ∀ value ∈ f.enumValues.getD [],
    ¬ "Table".toList <:+: value.toList ∧ ¬ "Enum".toList <:+: value.toList

/-- What the call that builds a column calls. -/
def Mapping.caller (dialect : Dialect) (table : String) (f : Field) : List Char :=
  if (standardType dialect f.type).nativeEnum then (enumVariable table f).toList
  else (standardType dialect f.type).builder.toList

theorem Mapping.caller_eq (dialect : Dialect) (table : String) (f : Field) :
    caller dialect table f = (called dialect table f).toList := by
  unfold caller called
  split <;> rfl

section Passages

variable {mark : Use → Bool} (hmark : Search mark)

include hmark

theorem Search.ends {u : Use} (h : mark u = true) : "Table".toList <:+ u.1 ∨ "Enum".toList <:+ u.1 := by
  obtain ⟨w, called⟩ := u
  cases called with
  | true => exact hmark.called w h
  | false => exact .inr (hmark.named w h)

theorem Search.passage {s : List Char} (h : isQuiet s = true) : Passage mark s [] := by
  obtain ⟨hplace, hwords⟩ := Bool.and_eq_true_iff.mp h
  refine ⟨List.filter_eq_nil_iff.mpr fun u hu hfound => ?_, by simpa using hplace⟩
  have hquiet := List.all_eq_true.mp hwords u hu
  simp only [Bool.and_eq_true, Bool.not_eq_true', ← Bool.not_eq_true,
    List.isSuffixOf_iff_suffix] at hquiet
  rcases hmark.ends hfound with h | h
  · exact hquiet.1 h
  · exact hquiet.2 h

/-- The names of tables and columns have no capitals. -/
theorem Search.snake {s : List Char} (h : ∀ c ∈ s, isSnakeChar c = true) :
    Passage mark (s ++ ['"']) [] := by
  refine passage_quiet (by decide) fun w called hw _ => ?_
  rw [← Bool.not_eq_true]
  intro hfound
  have hcapital : ∃ c ∈ s ++ ['"'], c = 'T' ∨ c = 'E' := by
    rcases hmark.ends hfound with hends | hends
    · exact ⟨'T', hw.subset (hends.subset (by decide)), .inl rfl⟩
    · exact ⟨'E', hw.subset (hends.subset (by decide)), .inr rfl⟩
  obtain ⟨c, hc, he⟩ := hcapital
  rcases List.mem_append.mp hc with hc | hc
  · have hsnake := h c hc
    rcases he with rfl | rfl <;> exact absurd hsnake (by decide)
  · rw [List.mem_singleton.mp hc] at he
    rcases he with he | he <;> cases he

/-- A value that holds no such word brings none into its literal. -/
theorem Search.literal {value : String} (htable : ¬ "Table".toList <:+: value.toList)
    (henum : ¬ "Enum".toList <:+: value.toList) : Passage mark (jsonLiteral value).toList [] := by
  have hparts : (jsonLiteral value).toList = '"' :: value.toList.flatMap jsonChar ++ ['"'] := by
    rw [jsonLiteral, String.toList_ofList]
  rw [hparts]
  refine passage_quiet (by decide) fun w called hw _ => ?_
  rw [← Bool.not_eq_true]
  intro hfound
  rw [← hparts] at hw
  rcases hmark.ends hfound with hends | hends
  · exact htable (infix_of_jsonLiteral (c := 'T') (w := "able".toList) (by decide) (by decide)
      (by decide) (hends.isInfix.trans hw))
  · exact henum (infix_of_jsonLiteral (c := 'E') (w := "num".toList) (by decide) (by decide)
      (by decide) (hends.isInfix.trans hw))

theorem Search.enumLiteral {values : List String}
    (hvalues : ∀ value ∈ values,
      ¬ "Table".toList <:+: value.toList ∧ ¬ "Enum".toList <:+: value.toList) :
    Passage mark (SchemaScaffold.enumLiteral values).toList [] := by
  have hlist : Passage mark (", ".toList.intercalate ((values.map jsonLiteral).map String.toList)) [] := by
    induction values with
    | nil => exact .nil _
    | cons value values ih =>
      have hvalue := hvalues value (by simp)
      have ih := ih fun v hv => hvalues v (List.mem_cons_of_mem _ hv)
      cases values with
      | nil => simpa using hmark.literal hvalue.1 hvalue.2
      | cons value' values =>
        simp only [List.map_cons, List.intercalate_cons_cons] at ih ⊢
        exact ((hmark.literal hvalue.1 hvalue.2).append_nil (hmark.passage (by decide))).append_nil ih
  simp only [SchemaScaffold.enumLiteral, String.toList_append, String.toList_intercalate]
  exact ((hmark.passage (by decide)).append_nil hlist).append_nil (hmark.passage (by decide))

/-! ## Columns -/

/-- A call with a name as its first argument. -/
theorem Search.callText {function name options : List Char}
    (hfunction : ∀ c ∈ function, isWordChar c = true) (hne : function ≠ [])
    (hname : ∀ c ∈ name, isSnakeChar c = true) (hoptions : Passage mark options []) :
    Passage mark (function ++ "(\"".toList ++ name ++ "\"".toList ++ options ++ ")".toList)
      ([(function, true)].filter mark) := by
  have hopen : "(\"".toList = ['('] ++ ['"'] := by decide
  have hquote : "\"".toList = ['"'] := by decide
  have hparts : function ++ "(\"".toList ++ name ++ "\"".toList ++ options ++ ")".toList =
      (function ++ ['(']) ++ (['"'] ++ (name ++ ['"'])) ++ (options ++ ")".toList) := by
    simp only [hopen, hquote, List.append_assoc]
  rw [hparts]
  exact ((passage_call hfunction hne).append_quiet
    ((hmark.passage (by decide)).append_nil (hmark.snake hname))).append_quiet
      (hoptions.append_nil (hmark.passage (by decide)))

theorem Search.options {dialect : Dialect} {f : Field} (hun : f.Unmarked mark) {options : String}
    (h : Mapping.CallOptions dialect f options) : Passage mark options.toList [] := by
  cases h with
  | plain hmem =>
    have hall : ∀ options ∈ Mapping.plainOptions, isQuiet options.toList = true := by decide
    exact hmark.passage (hall _ hmem)
  | enumObject =>
    simp only [String.toList_append]
    exact (hmark.passage (by decide)).append_nil (((hmark.passage (by decide)).append_nil
      (hmark.enumLiteral hun.values)).append_nil (hmark.passage (by decide)))
  | enumList =>
    rw [String.toList_append]
    exact (hmark.passage (by decide)).append_nil (hmark.enumLiteral hun.values)

theorem Search.call {dialect : Dialect} {table : String}
    (htable : ∀ c ∈ table.toList, isSnakeChar c = true) {f : Field} (hf : f.Accepted)
    (hun : f.Unmarked mark) :
    Passage mark (Mapping.builderCall (Mapping.standardType dialect f.type) f table).1.toList
      ([(Mapping.caller dialect table f, true)].filter mark) := by
  obtain ⟨options, hoptions, hcall⟩ := Mapping.builderCall_text dialect table f
  obtain ⟨hchars, hne⟩ := Mapping.called_chars htable hf dialect
  rw [hcall, Mapping.caller_eq]
  simp only [String.toList_append]
  exact hmark.callText (fun c hc => isWordChar_of_isAlphanum (hchars c hc)) hne
    (Mapping.column_chars hf) (hmark.options hun hoptions)

/-- The target of a reference, up to the end of its callback. -/
theorem Search.target {f : Field} (hf : f.Accepted) (hun : f.Unmarked mark)
    (href : f.isReference = true) :
    Passage mark ((tableVariable (f.target.getD "")).toList ++ ".id)".toList) [] := by
  have hchars := fun c hc => isWordChar_of_isAlphanum (Mapping.target_chars hf href c hc)
  have hdot : ".id)".toList = ['.'] ++ "id)".toList := by decide
  by_cases hne : (tableVariable (f.target.getD "")).toList = []
  · rw [hne]
    exact hmark.passage (by decide)
  · have hname : Passage mark ((tableVariable (f.target.getD "")).toList ++ ['.'])
        ([((tableVariable (f.target.getD "")).toList, false)].filter mark) :=
      passage_named hchars hne (by decide)
    rw [List.filter_cons_of_neg (by simp [hun.target href]), List.filter_nil] at hname
    rw [hdot, ← List.append_assoc]
    exact hname.append_nil (hmark.passage (by decide))

theorem Search.reference {f : Field} (hf : f.Accepted) (hun : f.Unmarked mark) (dialect : Dialect)
    (table : String) : Passage mark (Mapping.reference f dialect table).1.toList [] := by
  rcases Mapping.reference_text f dialect table with ⟨-, he⟩ | ⟨href, he | he⟩ <;> rw [he]
  · exact .nil _
  · simp only [String.toList_append, List.append_assoc]
    exact (hmark.passage (by decide)).append_nil (hmark.target hf hun href)
  · have hannotation : isQuiet (".references((): ".toList ++ dialect.anyColumnType.toList ++
        " => ".toList) = true := by
      cases dialect <;> decide
    rw [String.toList_append, String.toList_append, List.append_assoc, String.toList_append,
      String.toList_append]
    exact (hmark.passage hannotation).append_nil (hmark.target hf hun href)

theorem Search.modifiers (f : Field) : Passage mark (Mapping.modifiers f).toList [] := by
  unfold Mapping.modifiers
  rw [String.toList_append]
  refine Follows.append_nil (q := .between) (hmark.passage ?_) (hmark.passage ?_) <;>
    split <;> decide

/-- The line of a field calls its builder, or the variable of its enum, and nothing else of the kind. -/
theorem Search.fieldChunk {table : String} (htable : ∀ c ∈ table.toList, isSnakeChar c = true)
    {f : Field} (hf : f.Accepted) (hun : f.Unmarked mark) (dialect : Dialect) :
    Passage mark (Mapping.fieldColumn dialect table f).chunk
      ([(Mapping.caller dialect table f, true)].filter mark) := by
  have hname : Passage mark (f.name.toList ++ [':']) [] := by
    refine passage_quiet (by decide) fun w called hw hcall => ?_
    cases called with
    | false => exact hun.name w hw
    | true =>
      have hparen : '(' ∈ f.name.toList := hcall rfl
      have hchar := (Field.isFieldName_chars hf.name).1 _ hparen
      exact absurd hchar (by decide)
  have hspace : ": ".toList = [':'] ++ [' '] := by decide
  have hparts : (Mapping.fieldColumn dialect table f).chunk = "  ".toList ++ (f.name.toList ++ [':']) ++
      " ".toList ++ ((Mapping.builderCall (Mapping.standardType dialect f.type) f table).1.toList ++
        ((Mapping.modifiers f).toList ++ (Mapping.reference f dialect table).1.toList) ++
          ",\n".toList) := by
    simp only [Column.chunk, Column.line, Mapping.fieldColumn, String.toList_append, hspace,
      List.append_assoc, -String.reduceToList]
    rfl
  rw [hparts]
  refine (((hmark.passage (by decide)).append_nil hname).append_nil
    (hmark.passage (by decide))).append_nil ?_
  refine ((hmark.call htable hf hun).append_quiet ?_).append_quiet (hmark.passage (by decide))
  exact (hmark.modifiers f).append_nil (hmark.reference hf hun dialect table)

theorem Search.keyChunk (dialect : Dialect) (uuid : Bool) :
    Passage mark (Mapping.keyColumn dialect uuid).chunk [] := by
  apply hmark.passage
  cases dialect <;> cases uuid <;>
    · simp only [Mapping.keyColumn, Mapping.standardId, Column.chunk, Column.line,
        String.toList_append]
      repeat rw [String.toList_ofList]
      decide +kernel

theorem Search.stampChunk (dialect : Dialect) {key : String} (hkey : key ∈ Mapping.timestampFields) :
    Passage mark (Mapping.stampColumn dialect key).chunk [] := by
  apply hmark.passage
  simp only [Mapping.timestampFields, List.mem_cons, List.not_mem_nil, or_false] at hkey
  rcases hkey with rfl | rfl <;> cases dialect <;>
    · simp only [Mapping.stampColumn, Mapping.standardTimestamp, Mapping.snakeCase_timestamps, Column.chunk, Column.line,
        String.toList_append]
      repeat rw [String.toList_ofList]
      decide +kernel

end Passages

namespace Definition

variable (d : Definition) {mark : Use → Bool} (hmark : Search mark)

include hmark

/-- The lines of a block after the first one. -/
theorem passage_closing (hun : ∀ f ∈ d.fields, f.Unmarked mark) : Passage mark d.closing
    (d.fields.flatMap fun f => [(Mapping.caller d.dialect d.table.name f, true)].filter mark) := by
  have hfields : Passage mark
      ((d.fields.map (Mapping.fieldColumn d.dialect d.table.name)).flatMap Column.chunk)
      (d.fields.flatMap fun f => [(Mapping.caller d.dialect d.table.name f, true)].filter mark) := by
    rw [List.flatMap_map]
    exact Passage.flatMap fun f hf =>
      hmark.fieldChunk d.name_chars (d.field_accepted hf) (hun f hf) d.dialect
  have hstamps : Passage mark ((if d.options.timestamps then
      Mapping.timestampFields.map (Mapping.stampColumn d.dialect) else []).flatMap Column.chunk) [] := by
    split
    · rw [List.flatMap_map]
      have hstamp : Passage mark (Mapping.timestampFields.flatMap fun key =>
          (Mapping.stampColumn d.dialect key).chunk) (Mapping.timestampFields.flatMap fun _ => []) :=
        Passage.flatMap fun key hkey => hmark.stampChunk d.dialect hkey
      exact hstamp
    · exact .nil _
  unfold closing
  rw [d.columns_eq, List.flatMap_append, List.flatMap_cons]
  exact (((hmark.keyChunk _ _).append_nil hfields).append_quiet hstamps).append_quiet
    (hmark.passage (by decide))

end Definition
end SchemaScaffold
