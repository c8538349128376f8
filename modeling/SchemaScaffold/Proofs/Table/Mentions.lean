import SchemaScaffold.Proofs.Field.Grammar
import SchemaScaffold.Proofs.Source.Mentions
import SchemaScaffold.Proofs.Table.Block
import SchemaScaffold.Proofs.Table.Variables

/-!
What the text of a table mentions, piece by piece. A column calls its builder, or the variable of its
native enum, and its reference may name a type; a native enum is declared by a call. Names of fields
and columns, values of enums and the targets of references are passed over.
-/

namespace SchemaScaffold

open Source Naming Text

/-! ## Entries -/

theorem isNamePart_of_isAlphanum {c : Char} (h : c.isAlphanum = true) : isNamePart c = true := by
  rw [isNamePart, isWordChar_of_isAlphanum h, Bool.true_or]

theorem snake_literal {s : List Char} (h : ∀ c ∈ s, isSnakeChar c = true) :
    ∀ c ∈ s, c ≠ '\\' ∧ c ≠ '"' := by
  intro c hc
  have hsnake : isSnakeChar c = true := h c hc
  constructor
  · rintro rfl
    exact absurd hsnake (by decide)
  · rintro rfl
    exact absurd hsnake (by decide)

theorem reading_key {key : String} (hkey : Field.isFieldName key = true) :
    ∃ x, Reading (key.toList ++ ": ".toList) [.name x, .sign ':'] := by
  obtain ⟨c, cs, hc, hcs, hname⟩ := Field.isFieldName_iff.mp hkey
  have hpart : ∀ d ∈ c :: cs, isNamePart d = true :=
    List.forall_mem_cons.mpr ⟨isNamePart_of_isAlphanum (by simp [isAlphanum_eq, hc]),
      fun d hd => isNamePart_of_isAlphanum (hcs d hd)⟩
  refine ⟨c :: cs, ?_⟩
  -- a line break may end the name; it is a blank before the colon
  rcases hname with hname | hname
  · rw [hname]
    exact reading_name hpart (by simp) rfl
  · rw [hname, List.append_assoc]
    exact reading_name hpart (by simp) rfl

/-- A column calls what its expression starts with. -/
theorem mentions_column {key f body : String} {rest : List Char} {mentions : List Mention}
    (hkey : Field.isFieldName key = true) (hf : ∀ c ∈ f.toList, c.isAlphanum = true)
    (hne : f.toList ≠ []) (hbody : ∀ c ∈ body.toList, isSnakeChar c = true)
    (hrest : Mentions rest mentions) :
    Mentions ("  ".toList ++ (key.toList ++ ": ".toList) ++
      (f.toList ++ ("(\"".toList ++ (body.toList ++ "\"".toList))) ++ rest) (.call f :: mentions) := by
  obtain ⟨x, hread⟩ := reading_key hkey
  have hcall := reading_call (fun c hc => isNamePart_of_isAlphanum (hf c hc)) hne
    (snake_literal hbody)
  have hblank : Reading "  ".toList [] := by decide
  have hhead : Mentions ("  ".toList ++ (key.toList ++ ": ".toList) ++
      (f.toList ++ ("(\"".toList ++ (body.toList ++ "\"".toList)))) [.call f] :=
    ⟨_, (hblank.append hread).append hcall, told_entry x f⟩
  exact hhead.append hrest

/-! ## Fields -/

namespace Mapping

/-- What the line of a field mentions. -/
def fieldMentions (dialect : Dialect) (table : String) (f : Field) : List Mention :=
  .call (called dialect table f) :: (reference f dialect table).2.map .type

/-- What the declaration of a native enum mentions. -/
def enumMentions (table : String) (f : Field) : List Mention :=
  [.enum (enumVariable table f), .call "pgEnum"]

/-- Between brackets, what comes first may be any text that leads up to the list. -/
theorem mentions_enumLiteral (values : List String) {front rest : List Char}
    (hfront : isMute (front ++ ['[']) = true) (hrest : isMute (']' :: rest) = true) :
    Mentions (front ++ ((enumLiteral values).toList ++ rest)) [] := by
  have hlist : Mentions (", ".toList.intercalate ((values.map jsonLiteral).map String.toList)) [] := by
    induction values with
    | nil => exact .nil
    | cons value values ih =>
      cases values with
      | nil => simpa using mentions_jsonLiteral value
      | cons value' values =>
        simp only [List.map_cons, List.intercalate_cons_cons] at ih ⊢
        exact ((mentions_jsonLiteral value).append (mentions_mute (by decide))).append ih
  have hopen : "[".toList = ['['] := rfl
  have hclose : "]".toList = [']'] := rfl
  have hall : Mentions _ [] :=
    ((mentions_mute hfront).append hlist).append (mentions_mute hrest)
  simpa only [enumLiteral, String.toList_append, String.toList_intercalate, hopen, hclose,
    List.append_assoc, List.singleton_append] using hall

theorem mentions_options {dialect : Dialect} {f : Field} {options : String}
    (h : CallOptions dialect f options) : Mentions options.toList [] := by
  cases h with
  | plain hmem =>
    have hall : ∀ options ∈ plainOptions, isMute options.toList = true := by decide
    exact mentions_mute (hall _ hmem)
  | enumObject =>
    have hopen : ", ".toList ++ "\x7b enum: ".toList = ", \x7b enum: ".toList := by decide
    rw [String.toList_append, String.toList_append, String.toList_append, List.append_assoc,
      ← List.append_assoc, hopen]
    exact mentions_enumLiteral _ (by decide) (by decide)
  | enumList =>
    have hall := mentions_enumLiteral (f.enumValues.getD [])
      (show isMute (", ".toList ++ ['[']) = true by decide) (show isMute [']'] = true by decide)
    rw [String.toList_append]
    rwa [List.append_nil] at hall

/-- The tokens of what a field adds to its call. -/
def modifierTokens (f : Field) : List Token :=
  (if f.nullable then [] else [.sign '.', .member "notNull".toList, .sign '(', .sign ')']) ++
    if f.unique then [.sign '.', .member "unique".toList, .sign '(', .sign ')'] else []

theorem reading_modifiers (f : Field) : Reading (modifiers f).toList (modifierTokens f) := by
  unfold modifiers modifierTokens
  rw [String.toList_append]
  refine Reading.append ?_ ?_ <;> split <;> decide

/-- The callback of a reference, from its parenthesis on. -/
def callbackTokens (typing : List Token) (target : List Char) : List Token :=
  [.sign '.', .member "references".toList, .sign '(', .sign '(', .sign ')'] ++
    (typing ++ ([.sign '=', .sign '>'] ++ ((if target = [] then [] else [.name target]) ++
      [.sign '.', .member "id".toList, .sign ')'])))

theorem reading_target {target : List Char} (h : ∀ c ∈ target, c.isAlphanum = true) :
    Reading (target ++ ".id)".toList) ((if target = [] then [] else [.name target]) ++
      [.sign '.', .member "id".toList, .sign ')']) := by
  by_cases hne : target = []
  · rw [if_pos hne, hne]
    decide
  · rw [if_neg hne]
    exact reading_name (fun c hc => isNamePart_of_isAlphanum (h c hc)) hne rfl

theorem reading_callback {head : String} {typing : List Token}
    (hhead : Reading head.toList ([.sign '.', .member "references".toList, .sign '(', .sign '(',
      .sign ')'] ++ (typing ++ [.sign '=', .sign '>'])))
    {target : String} (h : ∀ c ∈ target.toList, c.isAlphanum = true) :
    Reading (head ++ target ++ ".id)").toList (callbackTokens typing target.toList) := by
  have hall := hhead.append (reading_target h)
  unfold callbackTokens
  simpa only [String.toList_append, List.append_assoc] using hall

/-- The one name that a callback mentions is the type of its value. -/
theorem told_annotation (f : Field) (x : String) (target : List Char) :
    Told ([.sign ')'] ++ (modifierTokens f ++ (callbackTokens [.sign ':', .name x.toList] target ++
      [.sign ',']))) [.type x] := by
  unfold modifierTokens callbackTokens
  split <;> split <;> split <;>
    · refine .of_found (by simp [Token.isBreak]) (fun y => ?_) (fun y => ?_) (fun y => ?_) ?_
      · simp [Calls, List.infix_cons_iff, List.cons_prefix_cons]
      · simp [Annotates, List.infix_cons_iff, List.cons_prefix_cons, String.toList_inj]
      · simp [DeclaresEnum, List.infix_cons_iff, List.cons_prefix_cons]
      · simp [Mention.token]

theorem told_callback (f : Field) (target : List Char) :
    Told ([.sign ')'] ++ (modifierTokens f ++ (callbackTokens [] target ++ [.sign ',']))) [] := by
  unfold modifierTokens callbackTokens
  split <;> split <;> split <;> exact told_quiet rfl rfl

/-- What closes the line of a field mentions the type that its reference imports. -/
theorem mentions_tail {f : Field} (hf : f.Accepted) (dialect : Dialect) (table : String) :
    Mentions (")".toList ++ ((modifiers f).toList ++ ((reference f dialect table).1.toList ++
      ",\n".toList))) ((reference f dialect table).2.map .type) := by
  have hread : ∀ {s ts}, Reading s ts → Reading (")".toList ++ ((modifiers f).toList ++
      (s ++ ",\n".toList))) ([.sign ')'] ++ (modifierTokens f ++ (ts ++ [.sign ',']))) :=
    fun h => .append (by decide) (.append (reading_modifiers f) (.append h (by decide)))
  rcases reference_text f dialect table with ⟨-, he⟩ | ⟨href, he | he⟩ <;> rw [he]
  · refine ⟨_, hread .nil, ?_⟩
    unfold modifierTokens
    split <;> split <;> exact told_quiet rfl rfl
  · have hhead : Reading ".references(() => ".toList ([.sign '.', .member "references".toList,
        .sign '(', .sign '(', .sign ')'] ++ ([] ++ [.sign '=', .sign '>'])) := by decide
    exact ⟨_, hread (reading_callback hhead (target_chars hf href)), told_callback f _⟩
  · have hhead : Reading (".references((): " ++ dialect.anyColumnType ++ " => ").toList
        ([.sign '.', .member "references".toList, .sign '(', .sign '(', .sign ')'] ++
          ([.sign ':', .name dialect.anyColumnType.toList] ++ [.sign '=', .sign '>'])) := by
      cases dialect <;> decide
    exact ⟨_, hread (reading_callback hhead (target_chars hf href)), told_annotation f _ _⟩

theorem mentions_fieldChunk {table : String} (htable : ∀ c ∈ table.toList, isSnakeChar c = true)
    {f : Field} (hf : f.Accepted) (dialect : Dialect) :
    Mentions (fieldColumn dialect table f).chunk (fieldMentions dialect table f) := by
  obtain ⟨options, hoptions, hcall⟩ := builderCall_text dialect table f
  obtain ⟨hchars, hne⟩ := called_chars htable hf dialect
  have hall := mentions_column hf.name hchars hne (column_chars hf)
    ((mentions_options hoptions).append (mentions_tail hf dialect table))
  simpa only [Column.chunk, Column.line, fieldColumn, String.toList_append, hcall, fieldMentions,
    List.append_assoc, List.nil_append, -String.reduceToList] using hall

theorem mentions_keyChunk (dialect : Dialect) (uuid : Bool) :
    Mentions (keyColumn dialect uuid).chunk [.call (standardId dialect uuid).1] := by
  have hparts : ∃ rest, isMute (rest ++ ",\n".toList) = true ∧ (standardId dialect uuid).2.toList =
      (standardId dialect uuid).1.toList ++ ("(\"".toList ++ ("id".toList ++ "\"".toList)) ++ rest := by
    refine ⟨(standardId dialect uuid).2.toList.drop ((standardId dialect uuid).1.length + 5), ?_⟩
    cases dialect <;> cases uuid <;> exact ⟨by decide, by decide⟩
  obtain ⟨rest, hrest, hexpression⟩ := hparts
  have hbuilder : (standardId dialect uuid).1.toList.all Char.isAlphanum = true ∧
      (standardId dialect uuid).1.toList ≠ [] := by
    cases dialect <;> cases uuid <;> decide
  have hall := mentions_column (show Field.isFieldName "id" = true by decide)
    (List.all_eq_true.mp hbuilder.1) hbuilder.2
    (List.all_eq_true.mp (show "id".toList.all isSnakeChar = true by decide)) (mentions_mute hrest)
  simpa only [Column.chunk, Column.line, keyColumn, String.toList_append, hexpression,
    List.append_assoc, -String.reduceToList] using hall

theorem mentions_stampChunk (dialect : Dialect) {key : String} (hkey : key ∈ timestampFields) :
    Mentions (stampColumn dialect key).chunk [.call (standardTimestamp dialect).builder] := by
  have hkey : Field.isFieldName key = true ∧ (snakeCase key).toList.all isSnakeChar = true := by
    simp only [timestampFields, List.mem_cons, List.not_mem_nil, or_false] at hkey
    rcases hkey with rfl | rfl <;> decide
  have hparts : ∃ rest, isMute (rest ++ ",\n".toList) = true ∧
      (standardTimestamp dialect).before.toList =
        (standardTimestamp dialect).builder.toList ++ "(\"".toList ∧
      (standardTimestamp dialect).after.toList = "\"".toList ++ rest := by
    refine ⟨(standardTimestamp dialect).after.toList.drop 1, ?_⟩
    cases dialect <;> exact ⟨by decide, by decide, by decide⟩
  obtain ⟨rest, hrest, hbefore, hafter⟩ := hparts
  have hbuilder : (standardTimestamp dialect).builder.toList.all Char.isAlphanum = true ∧
      (standardTimestamp dialect).builder.toList ≠ [] := by
    cases dialect <;> decide
  have hall := mentions_column hkey.1 (List.all_eq_true.mp hbuilder.1) hbuilder.2
    (List.all_eq_true.mp hkey.2) (mentions_mute hrest)
  simpa only [Column.chunk, Column.line, stampColumn, String.toList_append, hbefore, hafter,
    List.append_assoc, -String.reduceToList] using hall

/-! ## Statements -/

/-- The tokens of a statement up to the first argument of its call. -/
theorem reading_statement {v f : String} {body : List Char}
    (hv : ∀ c ∈ v.toList, c.isAlphanum = true) (hv' : v.toList ≠ [])
    (hf : ∀ c ∈ f.toList, c.isAlphanum = true) (hf' : f.toList ≠ [])
    (hbody : ∀ c ∈ body, isSnakeChar c = true) :
    Reading ("export const ".toList ++ (v.toList ++ (" = ".toList ++ (f.toList ++ ("(\"".toList ++
      (body ++ "\"".toList)))))) (declarationHead v f) := by
  have hname : Reading (v.toList ++ " = ".toList) [.name v.toList, .sign '='] :=
    reading_name (fun c hc => isNamePart_of_isAlphanum (hv c hc)) hv' rfl
  have hcall := reading_call (fun c hc => isNamePart_of_isAlphanum (hf c hc)) hf'
    (snake_literal hbody)
  have hexport : Reading "export const ".toList [.name "export".toList, .name "const".toList] := by
    decide
  have hall := hexport.append (hname.append hcall)
  rw [List.append_assoc] at hall
  exact hall

/-- A statement whose first argument is a literal, cut behind it. -/
theorem statement_parts (v f body rest : List Char) :
    statement v f ("\"".toList ++ (body ++ ("\"".toList ++ rest))) =
      ("export const ".toList ++ (v ++ (" = ".toList ++ (f ++ ("(\"".toList ++ (body ++
        "\"".toList)))))) ++ (rest ++ ");".toList) := by
  have hopen : "(\"".toList = '(' :: "\"".toList := by decide
  unfold statement
  simp only [hopen, List.append_assoc, List.cons_append, -String.reduceToList]

theorem mentions_enumDeclaration {table : String}
    (htable : ∀ c ∈ table.toList, isSnakeChar c = true) {f : Field} (hf : f.Accepted) :
    Mentions (enumDeclaration table f ++ ['\n']) (enumMentions table f) := by
  have hread := reading_statement (f := "pgEnum") (enumVariable_chars htable hf)
    (by simp [enumVariable]) (List.all_eq_true.mp (by decide)) (by decide)
    (enumTypeName_chars htable hf)
  have hhead : Mentions _ (enumMentions table f) := ⟨_, hread, told_enum (enumVariable table f)⟩
  have hvalues : Mentions (", ".toList ++ ((enumLiteral (f.enumValues.getD [])).toList ++
      (");".toList ++ ['\n']))) [] :=
    mentions_enumLiteral _ (by decide) (by decide)
  have hcomma : "\", ".toList = "\"".toList ++ ", ".toList := by decide
  have hall := hhead.append hvalues
  unfold enumDeclaration enumArguments
  simp only [hcomma, statement_parts, List.append_assoc, -String.reduceToList] at hall ⊢
  exact hall

end Mapping

namespace Definition

variable (d : Definition)

/-- What the columns of a table mention, line by line. -/
def columnMentions : List Mention :=
  .call (Mapping.standardId d.dialect d.options.uuid).1 ::
    d.fields.flatMap (Mapping.fieldMentions d.dialect d.table.name) ++
      (if d.options.timestamps then Mapping.timestampFields else []).flatMap fun _ =>
        [.call (Mapping.standardTimestamp d.dialect).builder]

theorem mentions_columns : Mentions (d.table.columns.flatMap Column.chunk) d.columnMentions := by
  have hfields := Mentions.flatMap fun f (hf : f ∈ d.fields) =>
    Mapping.mentions_fieldChunk d.name_chars (d.field_accepted hf) d.dialect
  have hstamps : Mentions ((if d.options.timestamps then Mapping.timestampFields else []).flatMap
      fun key => (Mapping.stampColumn d.dialect key).chunk)
      ((if d.options.timestamps then Mapping.timestampFields else []).flatMap fun _ =>
        [.call (Mapping.standardTimestamp d.dialect).builder]) := by
    refine Mentions.flatMap fun key hkey => Mapping.mentions_stampChunk d.dialect ?_
    split at hkey
    · exact hkey
    · cases hkey
  have hall := ((Mapping.mentions_keyChunk d.dialect d.options.uuid).append hfields).append hstamps
  have hcolumns : d.table.columns = Mapping.keyColumn d.dialect d.options.uuid ::
      d.fields.map (Mapping.fieldColumn d.dialect d.table.name) ++
        (if d.options.timestamps then Mapping.timestampFields else []).map
          (Mapping.stampColumn d.dialect) := by
    rw [d.columns_eq]
    split <;> rfl
  rw [hcolumns, List.flatMap_append, List.flatMap_cons, List.flatMap_map, List.flatMap_map]
  exact hall

theorem mentions_block (h : d.table.name ≠ "") :
    Mentions d.table.renderBlock.toList (.call d.table.function :: d.columnMentions) := by
  have hfunction : d.table.function ≠ "pgEnum" := by
    rw [d.function_eq]
    cases d.dialect <;> decide
  have hread := Mapping.reading_statement d.exportName_chars (d.exportName_ne_nil h)
    d.function_alphanum d.function_ne_nil d.name_chars
  have hhead : Mentions _ [.call d.table.function] := ⟨_, hread, told_declaration hfunction⟩
  have hopen : Mentions ", \x7b\n".toList [] := mentions_mute (by decide)
  have hclose : Mentions (['\x7d'] ++ ");".toList) [] := mentions_mute (by decide)
  have hbrace : "\", \x7b\n".toList = "\"".toList ++ ", \x7b\n".toList := by decide
  have hall := hhead.append ((hopen.append d.mentions_columns).append hclose)
  rw [d.renderBlock_eq]
  unfold Table.arguments
  simp only [hbrace, Mapping.statement_parts, List.append_assoc, List.append_nil,
    -String.reduceToList] at hall ⊢
  exact hall

/-- What a table mentions: its native enums, the function that makes it, and its columns. -/
def mentions : List Mention :=
  (Mapping.nativeEnums d.dialect d.fields).flatMap (Mapping.enumMentions d.table.name) ++
    .call d.table.function :: d.columnMentions

theorem mentions_render (h : d.table.name ≠ "") : Mentions d.table.render.toList d.mentions := by
  have henums : Mentions d.table.preamble
      ((Mapping.nativeEnums d.dialect d.fields).flatMap (Mapping.enumMentions d.table.name)) := by
    have hbreak : Mentions ['\n'] [] := mentions_mute (by decide)
    rw [d.preamble_eq]
    split
    · rename_i hnone
      rw [hnone]
      exact .nil
    · have hlines := Mentions.flatMap fun f hf =>
        Mapping.mentions_enumDeclaration d.name_chars (d.nativeEnum_accepted hf)
      have hall := hlines.append hbreak
      rwa [List.append_nil] at hall
  rw [d.table.render_toList]
  exact henums.append (d.mentions_block h)

end Definition
end SchemaScaffold
