import SchemaScaffold.Proofs.Field.Grammar
import SchemaScaffold.Proofs.Table.Lines
import SchemaScaffold.Proofs.Text.Occurrences

/-!
The marks of generated columns. How a table was generated is told by three words of its block: two
that build a UUID, and the name of a timestamp column. The generator writes them nowhere else, but a
block also holds what the request brought along: names, targets and enum values. So a mark stands in
a block exactly if its column is there or something of the request holds it.
-/

namespace SchemaScaffold

open Naming Text

/-- The words that tell of a generated UUID. -/
def keyMarks : List String := ["randomUUID", "defaultRandom"]

/-- The word that tells of timestamps. -/
def stampMark : String := "createdAt:"

def columnMarks : List String := keyMarks ++ [stampMark]

/-- A text without marks, and without a mark that it starts. -/
def isUnmarked (s : List Char) : Bool :=
  columnMarks.all fun w => !occurs w.toList s && s.getLast?.all fun c => !w.toList.contains c

/-- A character that no mark holds. -/
def isApart (c : Char) : Bool := columnMarks.all fun w => !w.toList.contains c

/-- What the line of a field takes over from the request as it is, besides the name. -/
def Mapping.borrowed (dialect : Dialect) (table : String) (f : Field) : List String :=
  (if (standardType dialect f.type).nativeEnum then [enumVariable table f]
    else (f.enumValues.getD []).map jsonLiteral) ++
    if f.isReference then [tableVariable (f.target.getD "")] else []

section Marks

variable {w : String} (hw : w ∈ columnMarks)

include hw

theorem columnMark_ne_nil : w.toList ≠ [] := by
  have hall : ∀ w ∈ columnMarks, w.toList ≠ [] := by decide
  exact hall w hw

theorem not_mem_columnMark {c : Char} (h : isApart c = true) : c ∉ w.toList := by
  simpa using List.all_eq_true.mp h w hw

theorem tells_unmarked {s : List Char} (h : isUnmarked s = true) : Tells w.toList s False := by
  have hboth := List.all_eq_true.mp h w hw
  simp only [Bool.and_eq_true, Bool.not_eq_true', ← Bool.not_eq_true, occurs_iff] at hboth
  refine ⟨iff_false_intro hboth.1, fun c hc => ?_⟩
  have hlast := hboth.2
  rw [Option.mem_def.mp hc] at hlast
  simpa using hlast

theorem tells_upTo {c : Char} (hc : isApart c = true) (s : List Char) :
    Tells w.toList (s ++ [c]) (w.toList <:+: s) :=
  .upTo (not_mem_columnMark hw hc) s

/-- Every mark has a capital, and the names of tables and columns have none. -/
theorem tells_snake {s : List Char} (h : ∀ c ∈ s, isSnakeChar c = true) :
    Tells w.toList (s ++ ['"']) False := by
  have hcapital : ∀ w ∈ columnMarks, w.toList.all isSnakeChar = false := by decide
  obtain ⟨c, hc, hsnake⟩ := List.all_eq_false.mp (hcapital w hw)
  exact .lacks hc (fun hmem => hsnake (h c hmem)) (not_mem_columnMark hw (by decide))

theorem tells_literal (value : String) :
    Tells w.toList (jsonLiteral value).toList (w.toList <:+: (jsonLiteral value).toList) where
  found := Iff.rfl
  closed := by
    rw [jsonLiteral, String.toList_ofList, List.getLast?_concat]
    rintro c ⟨⟩
    exact not_mem_columnMark hw (by decide)

theorem tells_enumLiteral (values : List String) : Tells w.toList (enumLiteral values).toList
    (∃ text ∈ values.map jsonLiteral, w.toList <:+: text.toList) := by
  have hlist : Tells w.toList (", ".toList.intercalate ((values.map jsonLiteral).map String.toList))
      (∃ text ∈ values.map jsonLiteral, w.toList <:+: text.toList) := by
    induction values with
    | nil => exact (Tells.nil (columnMark_ne_nil hw)).iff (by simp)
    | cons value values ih =>
      have hvalue := tells_literal hw value
      cases values with
      | nil => simpa using hvalue
      | cons next values =>
        simp only [List.map_cons, List.intercalate_cons_cons] at ih ⊢
        refine ((hvalue.before (tells_unmarked hw (by decide))).append ih).iff ?_
        simp only [List.mem_cons, exists_eq_or_imp]
  simp only [enumLiteral, String.toList_append, String.toList_intercalate]
  exact ((tells_unmarked hw (by decide)).behind hlist).before (tells_unmarked hw (by decide))

/-! ## Columns -/

/-- The options of a call hold what the values of an enum hold, unless the enum is a type of its own. -/
theorem tells_options {dialect : Dialect} {f : Field} (hf : f.Accepted) {options : String}
    (h : Mapping.CallOptions dialect f options) :
    Tells w.toList options.toList (∃ text ∈ if (Mapping.standardType dialect f.type).nativeEnum then
      [] else (f.enumValues.getD []).map jsonLiteral, w.toList <:+: text.toList) := by
  have hvalues := tells_enumLiteral hw (f.enumValues.getD [])
  cases h with
  | plain hmem hplain =>
    have hall : ∀ options ∈ Mapping.plainOptions, isUnmarked options.toList = true := by decide
    refine (tells_unmarked hw (hall _ hmem)).iff (iff_of_false id ?_)
    rintro ⟨text, htext, -⟩
    split at htext
    · cases htext
    · rename_i hnative
      rw [hf.values (hplain (eq_false_of_ne_true hnative))] at htext
      cases htext
  | enumObject hnative =>
    simp only [String.toList_append, hnative, Bool.false_eq_true, if_false]
    exact (tells_unmarked hw (by decide)).behind
      (((tells_unmarked hw (by decide)).behind hvalues).before (tells_unmarked hw (by decide)))
  | enumList hnative =>
    simp only [String.toList_append, hnative, Bool.false_eq_true, if_false]
    exact (tells_unmarked hw (by decide)).behind hvalues

/-- A call with a name as its first argument tells what its function and its options tell. -/
theorem tells_callText {function name options : List Char} {p q : Prop}
    (hfunction : Tells w.toList (function ++ ['(']) p) (hname : ∀ c ∈ name, isSnakeChar c = true)
    (hoptions : Tells w.toList options q) :
    Tells w.toList (function ++ "(\"".toList ++ name ++ "\"".toList ++ options ++ ")".toList)
      (p ∨ q) := by
  have hopen : "(\"".toList = ['('] ++ ['"'] := by decide
  have hquote : "\"".toList = ['"'] := by decide
  have hparts : function ++ "(\"".toList ++ name ++ "\"".toList ++ options ++ ")".toList =
      (function ++ ['(']) ++ ((['"'] ++ (name ++ ['"'])) ++ (options ++ ")".toList)) := by
    simp only [hopen, hquote, List.append_assoc]
  rw [hparts]
  exact hfunction.append (((tells_unmarked hw (by decide)).behind (tells_snake hw hname)).behind
    (hoptions.before (tells_unmarked hw (by decide))))

/-- The call that builds a column holds the variable of a native enum, or the values of another. -/
theorem tells_call {table : String} {f : Field} (hf : f.Accepted) (dialect : Dialect) :
    Tells w.toList (Mapping.builderCall (Mapping.standardType dialect f.type) f table).1.toList
      (∃ text ∈ if (Mapping.standardType dialect f.type).nativeEnum then
          [Mapping.enumVariable table f] else (f.enumValues.getD []).map jsonLiteral,
        w.toList <:+: text.toList) := by
  obtain ⟨options, hoptions, hcall⟩ := Mapping.builderCall_text dialect table f
  have htext := tells_options hw hf hoptions
  have hcolumn := Mapping.column_chars hf
  rw [hcall]
  simp only [String.toList_append]
  unfold Mapping.called
  cases hnative : (Mapping.standardType dialect f.type).nativeEnum with
  | true =>
    have hvariable := tells_upTo hw (c := '(') (by decide) (Mapping.enumVariable table f).toList
    rw [hnative] at htext
    exact (tells_callText hw hvariable hcolumn htext).iff (by simp)
  | false =>
    have hbuilder : isUnmarked ((Mapping.standardType dialect f.type).builder.toList ++ ['(']) = true := by
      cases dialect <;> cases f.type <;> decide
    rw [hnative] at htext
    exact (tells_callText hw (tells_unmarked hw hbuilder) hcolumn htext).iff (by simp)

theorem tells_modifiers (f : Field) : Tells w.toList (Mapping.modifiers f).toList False := by
  unfold Mapping.modifiers
  rw [String.toList_append]
  refine (tells_unmarked hw ?_).before (tells_unmarked hw ?_) <;> split <;> decide

theorem tells_reference (f : Field) (dialect : Dialect) (table : String) :
    Tells w.toList (Mapping.reference f dialect table).1.toList
      (∃ text ∈ if f.isReference then [tableVariable (f.target.getD "")] else [],
        w.toList <:+: text.toList) := by
  have hdot : ".id)".toList = ['.'] ++ "id)".toList := by decide
  have htarget : Tells w.toList ((tableVariable (f.target.getD "")).toList ++ ".id)".toList)
      (w.toList <:+: (tableVariable (f.target.getD "")).toList) := by
    rw [hdot, ← List.append_assoc]
    exact (tells_upTo hw (by decide) _).before (tells_unmarked hw (by decide))
  rcases Mapping.reference_text f dialect table with ⟨href, he⟩ | ⟨href, he | he⟩ <;> rw [he, href]
  · exact (Tells.nil (columnMark_ne_nil hw)).iff (by simp)
  · simp only [String.toList_append, List.append_assoc, -String.reduceToList]
    exact ((tells_unmarked hw (by decide)).behind htarget).iff (by simp)
  · have hannotation : isUnmarked (".references((): ".toList ++ dialect.anyColumnType.toList ++
        " => ".toList) = true := by
      cases dialect <;> decide
    rw [String.toList_append, String.toList_append, List.append_assoc, String.toList_append,
      String.toList_append]
    exact ((tells_unmarked hw hannotation).behind htarget).iff (by simp)

/-- The line of a field holds its name, up to the colon, and what it takes over besides. -/
theorem tells_fieldChunk {table : String} {f : Field} (hf : f.Accepted) (dialect : Dialect) :
    Tells w.toList (Mapping.fieldColumn dialect table f).chunk
      (w.toList <:+: f.name.toList ++ [':'] ∨
        ∃ text ∈ Mapping.borrowed dialect table f, w.toList <:+: text.toList) := by
  have hname := tells_upTo hw (c := ' ') (by decide) (f.name.toList ++ [':'])
  have hexpression : Tells w.toList (Mapping.fieldColumn dialect table f).expression.toList
      (∃ text ∈ Mapping.borrowed dialect table f, w.toList <:+: text.toList) := by
    simp only [Mapping.fieldColumn, String.toList_append]
    refine (((tells_call hw hf dialect).before (tells_modifiers hw f)).append
      (tells_reference hw f dialect table)).iff ?_
    simp only [Mapping.borrowed, List.mem_append, or_and_right, exists_or]
  have hparts : (Mapping.fieldColumn dialect table f).chunk = "  ".toList ++
      (((f.name.toList ++ [':']) ++ [' ']) ++
        ((Mapping.fieldColumn dialect table f).expression.toList ++ ",\n".toList)) := by
    have hbreak : ",\n".toList = [','] ++ ['\n'] := by decide
    rw [Column.chunk_eq, hbreak]
    simp only [Mapping.fieldColumn, List.append_assoc, List.cons_append, List.nil_append]
  rw [hparts]
  exact (tells_unmarked hw (by decide)).behind
    (hname.append (hexpression.before (tells_unmarked hw (by decide))))

end Marks

/-! ## Generated columns -/

namespace Mapping

theorem keyMark_keyColumn (dialect : Dialect) (uuid : Bool) :
    (∃ w ∈ keyMarks, w.toList <:+: (keyColumn dialect uuid).chunk) ↔ uuid = true := by
  have hany : (keyMarks.any fun w => occurs w.toList (keyColumn dialect uuid).chunk) = uuid := by
    cases dialect <;> cases uuid <;> decide +kernel
  have hexists := List.any_eq_true (l := keyMarks)
    (p := fun w => occurs w.toList (keyColumn dialect uuid).chunk)
  rw [hany] at hexists
  simpa only [occurs_iff] using hexists.symm

theorem stampMark_keyColumn (dialect : Dialect) (uuid : Bool) :
    ¬ stampMark.toList <:+: (keyColumn dialect uuid).chunk := by
  rw [← occurs_iff]
  cases dialect <;> cases uuid <;> decide +kernel

theorem keyMark_stampColumn (dialect : Dialect) {w key : String} (hw : w ∈ keyMarks)
    (hkey : key ∈ timestampFields) : ¬ w.toList <:+: (stampColumn dialect key).chunk := by
  have hall : ∀ w ∈ keyMarks, ∀ key ∈ timestampFields,
      occurs w.toList (stampColumn dialect key).chunk = false := by
    cases dialect <;> decide +kernel
  rw [← occurs_iff, hall w hw key hkey]
  decide

theorem stampMark_stampColumn (dialect : Dialect) :
    stampMark.toList <:+: (stampColumn dialect "createdAt").chunk := by
  have hmark : stampMark.toList = "createdAt".toList ++ [':'] := by decide
  rw [hmark]
  exact (stampColumn dialect "createdAt").key_infix_chunk

end Mapping

namespace Definition

variable (d : Definition)

/-- The values of an enum hold no colon, and neither do variables. -/
theorem colon_not_mem_borrowed {f : Field} (hf : f ∈ d.fields) :
    ∀ text ∈ Mapping.borrowed d.dialect d.table.name f, ':' ∉ text.toList := by
  have haccepted := d.field_accepted hf
  have hvalues : ∀ value ∈ f.enumValues.getD [], ':' ∉ value.toList := by
    obtain ⟨raw, -, hraw⟩ := mapM_ok d.parsed f hf
    exact Field.values_colon hraw
  intro text htext hmem
  rcases List.mem_append.mp htext with htext | htext
  · split at htext
    · rw [List.mem_singleton.mp htext] at hmem
      exact absurd (Mapping.enumVariable_chars d.name_chars haccepted _ hmem) (by decide)
    · obtain ⟨value, hvalue, rfl⟩ := List.mem_map.mp htext
      obtain ⟨front, back, hparts⟩ := List.append_of_mem hmem
      have hwithin : [':'] <:+: value.toList := by
        refine infix_of_jsonLiteral (by decide) (by decide) (by decide) ⟨front, back, ?_⟩
        rw [hparts, List.append_assoc, List.singleton_append]
      exact hvalues value hvalue (hwithin.subset (by simp))
  · split at htext
    · rename_i href
      rw [List.mem_singleton.mp htext] at hmem
      exact absurd (Mapping.target_chars haccepted href _ hmem) (by decide)
    · cases htext

/-- A mark stands in the block of a table exactly if the variable of the table holds it, or the line
of a column. -/
theorem columnMark_block {w : String} (hw : w ∈ columnMarks) :
    w.toList <:+: d.table.renderBlock.toList ++ ['\n'] ↔ w.toList <:+: d.table.exportName.toList ∨
      ∃ c ∈ d.table.columns, w.toList <:+: c.chunk := by
  have hequals : " = ".toList = [' '] ++ "= ".toList := by decide
  have hbrace : "\", \x7b".toList = ['"'] ++ ", \x7b".toList := by decide
  have hfunction : isUnmarked ("= ".toList ++ (d.table.function.toList ++ "(\"".toList)) = true := by
    rw [d.function_eq]
    cases d.dialect <;> decide
  have hchunk : ∀ c ∈ d.table.columns, Tells w.toList c.chunk (w.toList <:+: c.chunk) := by
    intro c _
    refine ⟨Iff.rfl, fun e he => ?_⟩
    rw [c.chunk_eq, ← List.append_assoc, ← List.append_assoc, List.getLast?_concat] at he
    cases he
    exact not_mem_columnMark hw (by decide)
  have hclosing := (Tells.flatMap (columnMark_ne_nil hw) hchunk).before
    (tells_unmarked hw (s := "\x7d);\n".toList) (by decide))
  -- each of these pieces ends with a character that no mark holds
  have hparts : d.table.renderBlock.toList ++ ['\n'] = "export const ".toList ++
      ((d.table.exportName.toList ++ [' ']) ++
        (("= ".toList ++ (d.table.function.toList ++ "(\"".toList)) ++
          ((d.table.name.toList ++ ['"']) ++ (", \x7b\n".toList ++ d.closing)))) := by
    have hbreak : ", \x7b\n".toList = ", \x7b".toList ++ ['\n'] := by decide
    rw [d.block_eq]
    unfold firstLine
    simp only [hequals, hbrace, hbreak, List.append_assoc, -String.reduceToList]
  rw [hparts]
  exact ((tells_unmarked hw (by decide)).behind ((tells_upTo hw (by decide) _).append
    ((tells_unmarked hw hfunction).behind ((tells_snake hw d.name_chars).behind
      ((tells_unmarked hw (by decide)).behind hclosing))))).found

theorem exists_column {P : Column → Prop} : (∃ c ∈ d.table.columns, P c) ↔
    P (Mapping.keyColumn d.dialect d.options.uuid) ∨
      (∃ f ∈ d.fields, P (Mapping.fieldColumn d.dialect d.table.name f)) ∨
      (d.options.timestamps = true ∧
        ∃ key ∈ Mapping.timestampFields, P (Mapping.stampColumn d.dialect key)) := by
  rw [d.columns_eq]
  cases d.options.timestamps <;> simp [or_and_right, exists_or]

/-- The line of a field holds a mark of a UUID if the request brought it along, -/
theorem keyMark_fieldColumn {w : String} (hw : w ∈ keyMarks) {f : Field} (hf : f ∈ d.fields) :
    w.toList <:+: (Mapping.fieldColumn d.dialect d.table.name f).chunk ↔ w.toList <:+: f.name.toList ∨
      ∃ text ∈ Mapping.borrowed d.dialect d.table.name f, w.toList <:+: text.toList := by
  have hcolon : ':' ∉ w.toList := by
    have hall : ∀ w ∈ keyMarks, ':' ∉ w.toList := by decide
    exact hall w hw
  rw [(tells_fieldChunk (List.mem_append_left _ hw) (d.field_accepted hf) d.dialect).found,
    (Tells.upTo hcolon f.name.toList).found]

/-- and that of timestamps if its name ends like theirs: nothing else of it holds a colon. -/
theorem stampMark_fieldColumn {f : Field} (hf : f ∈ d.fields) :
    stampMark.toList <:+: (Mapping.fieldColumn d.dialect d.table.name f).chunk ↔
      "createdAt".toList <:+ f.name.toList := by
  have hmark : stampMark.toList = "createdAt".toList ++ [':'] := by decide
  have hname : ':' ∉ f.name.toList := fun hmem =>
    absurd ((Field.isFieldName_chars (d.field_accepted hf).name).1 _ hmem) (by decide)
  have hborrowed : ¬ ∃ text ∈ Mapping.borrowed d.dialect d.table.name f,
      stampMark.toList <:+: text.toList := by
    rintro ⟨text, htext, hwithin⟩
    exact d.colon_not_mem_borrowed hf text htext (hwithin.subset (by decide))
  rw [(tells_fieldChunk (by decide) (d.field_accepted hf) d.dialect).found, or_iff_left hborrowed,
    hmark, concat_infix_iff hname]

/-- A block tells of a UUID exactly if its key is one, or the request brought one of the marks along. -/
theorem keyMark_block : (∃ w ∈ keyMarks, w.toList <:+: d.table.renderBlock.toList ++ ['\n']) ↔
    d.options.uuid = true ∨ ∃ w ∈ keyMarks, w.toList <:+: d.table.exportName.toList ∨
      ∃ f ∈ d.fields, w.toList <:+: f.name.toList ∨
        ∃ text ∈ Mapping.borrowed d.dialect d.table.name f, w.toList <:+: text.toList := by
  have hmark : ∀ w ∈ keyMarks, (w.toList <:+: d.table.renderBlock.toList ++ ['\n'] ↔
      w.toList <:+: (Mapping.keyColumn d.dialect d.options.uuid).chunk ∨
      (w.toList <:+: d.table.exportName.toList ∨
      ∃ f ∈ d.fields, w.toList <:+: f.name.toList ∨
        ∃ text ∈ Mapping.borrowed d.dialect d.table.name f, w.toList <:+: text.toList)) := by
    intro w hw
    have hstamps : ¬ (d.options.timestamps = true ∧ ∃ key ∈ Mapping.timestampFields,
        w.toList <:+: (Mapping.stampColumn d.dialect key).chunk) := by
      rintro ⟨-, key, hkey, hwithin⟩
      exact Mapping.keyMark_stampColumn d.dialect hw hkey hwithin
    have hfields := exists_congr fun f => and_congr_right (d.keyMark_fieldColumn hw (f := f))
    rw [d.columnMark_block (List.mem_append_left _ hw), d.exists_column, hfields,
      or_iff_left hstamps, or_left_comm]
  rw [← Mapping.keyMark_keyColumn d.dialect d.options.uuid, ← exists_or]
  exact exists_congr fun w => (and_congr_right (hmark w)).trans and_or_left

/-- A block tells of timestamps exactly if it has them, or the name of a field ends like theirs. -/
theorem stampMark_block : stampMark.toList <:+: d.table.renderBlock.toList ++ ['\n'] ↔
    d.options.timestamps = true ∨ ∃ f ∈ d.fields, "createdAt".toList <:+ f.name.toList := by
  have hexport : ¬ stampMark.toList <:+: d.table.exportName.toList := by
    intro hwithin
    have hmem : ':' ∈ d.table.exportName.toList := hwithin.subset (by decide)
    exact absurd (d.exportName_chars _ hmem) (by decide)
  have hkey : ¬ stampMark.toList <:+: (Mapping.keyColumn d.dialect d.options.uuid).chunk :=
    Mapping.stampMark_keyColumn d.dialect d.options.uuid
  have hstamps : ∃ key ∈ Mapping.timestampFields,
      stampMark.toList <:+: (Mapping.stampColumn d.dialect key).chunk :=
    ⟨"createdAt", by decide, Mapping.stampMark_stampColumn d.dialect⟩
  have hfields := exists_congr fun f => and_congr_right (d.stampMark_fieldColumn (f := f))
  rw [d.columnMark_block (by decide), d.exists_column, hfields, or_iff_right hexport,
    or_iff_right hkey, or_comm, and_iff_left hstamps]

end Definition
end SchemaScaffold
