import Mathlib.Data.List.Nodup
import SchemaScaffold.Proofs.Naming.Recasing
import SchemaScaffold.Proofs.Table.Mentions
import SchemaScaffold.Proofs.Table.Pieces

/-!
The names of columns. A column has a key in the code and a name in the database, which is the key in
snake case. The check of the column names keeps the keys apart. It does not keep the names apart: two
keys that differ in the capitals inside a word are one name, and so the names are distinct exactly if
the keys stay distinct without these capitals.
-/

namespace SchemaScaffold

open Naming Text

/-- The name of a column in the database: the first string of the call that builds it. -/
def Column.sqlName (c : Column) : String :=
  String.ofList ((c.expression.toList.dropWhile (· != '"')).tail.takeWhile (· != '"'))

theorem Column.sqlName_eq {c : Column} {front name rest : List Char}
    (h : c.expression.toList = front ++ '"' :: (name ++ '"' :: rest)) (hfront : '"' ∉ front)
    (hname : '"' ∉ name) : c.sqlName = String.ofList name := by
  have hbefore : ∀ d ∈ front, (d != '"') = true := fun d hd => bne_iff_ne.mpr fun he => hfront (he ▸ hd)
  have hinside : ∀ d ∈ name, (d != '"') = true := fun d hd => bne_iff_ne.mpr fun he => hname (he ▸ hd)
  rw [sqlName, h, List.dropWhile_append_of_pos hbefore, List.dropWhile_cons_of_neg (by decide),
    List.tail_cons, List.takeWhile_append_of_pos hinside, List.takeWhile_cons_of_neg (by decide),
    List.append_nil]

namespace Mapping

theorem quote_not_mem {s : List Char} (h : ∀ c ∈ s, isNameChar c = true) : '"' ∉ s := by
  intro hmem
  exact absurd (h '"' hmem) (by decide)

theorem sqlName_fieldColumn {table : String} (htable : ∀ c ∈ table.toList, isSnakeChar c = true)
    {f : Field} (hf : f.Accepted) (dialect : Dialect) :
    (fieldColumn dialect table f).sqlName = snakeCase f.name := by
  obtain ⟨options, -, hcall⟩ := builderCall_text dialect table f
  obtain ⟨hchars, -⟩ := called_chars htable hf dialect
  have hfront : '"' ∉ (called dialect table f).toList ++ ['('] := by
    refine List.not_mem_append (quote_not_mem fun c hc => ?_) (by decide)
    exact isNameChar_of_isAlphanum (hchars c hc)
  have hname : '"' ∉ (snakeCase f.name).toList :=
    quote_not_mem fun c hc => isNameChar_of_isSnakeChar (column_chars hf c hc)
  have hexpression : (fieldColumn dialect table f).expression.toList =
      (called dialect table f).toList ++ ['('] ++ '"' :: ((snakeCase f.name).toList ++ '"' ::
        (options.toList ++ ')' :: ((modifiers f).toList ++ (reference f dialect table).1.toList))) := by
    simp [fieldColumn, hcall]
  rw [Column.sqlName_eq hexpression hfront hname, String.ofList_toList]

theorem sqlName_keyColumn (dialect : Dialect) (uuid : Bool) :
    (keyColumn dialect uuid).sqlName = snakeCase "id" := by
  cases dialect <;> cases uuid <;> decide

theorem sqlName_stampColumn (dialect : Dialect) {key : String} (hkey : key ∈ timestampFields) :
    (stampColumn dialect key).sqlName = snakeCase key := by
  simp only [timestampFields, List.mem_cons, List.not_mem_nil, or_false] at hkey
  rcases hkey with rfl | rfl <;> cases dialect <;> decide

end Mapping

/-! ## Names and keys -/

theorem Field.isFieldName_chomp {s : String} (h : isFieldName s = true) :
    ∀ c ∈ (chomp s.toList).1, c.isAlphanum = true := by
  unfold isFieldName at h
  split at h
  · cases h
  · rename_i c cs hname
    obtain ⟨hc, hcs⟩ := Bool.and_eq_true_iff.mp h
    rw [hname]
    exact List.forall_mem_cons.mpr ⟨by simp [isAlphanum_eq, hc], List.all_eq_true.mp hcs⟩

theorem Field.clash?_eq_none {f : Field} {timestamps : Bool} (h : f.clash? timestamps = none) :
    f.name ≠ "id" ∧ (timestamps = true → f.name ∉ Mapping.timestampFields) := by
  unfold clash? at h
  split at h
  · cases h
  · rename_i hid
    split at h
    · cases h
    · rename_i hstamp
      refine ⟨by simpa using hid, fun ht hmem => hstamp ?_⟩
      rw [ht, Bool.true_and, List.contains_iff_mem]
      exact hmem

/-- The check lets no field take the key of a generated column. -/
theorem checkColumnNames_ok {fields : List Field} {timestamps : Bool}
    (h : checkColumnNames fields timestamps = .ok ()) {f : Field} (hf : f ∈ fields) :
    f.name ≠ "id" ∧ (timestamps = true → f.name ∉ Mapping.timestampFields) := by
  unfold checkColumnNames at h
  split at h
  · cases h
  · rename_i hnone
    exact Field.clash?_eq_none (List.findSome?_eq_none_iff.mp hnone f hf)

namespace Definition

variable (d : Definition)

theorem distinct : checkColumnNames d.fields d.options.timestamps = .ok () := by
  have hbuilt := d.built
  rw [Mapping.standard_table] at hbuilt
  obtain ⟨_, hcheck, -⟩ := map_ok hbuilt
  exact mapError_ok hcheck

theorem sqlName_eq {c : Column} (hc : c ∈ d.table.columns) : c.sqlName = snakeCase c.key := by
  rcases d.column_cases hc with rfl | ⟨f, hf, rfl⟩ | ⟨key, hkey, rfl⟩
  · exact Mapping.sqlName_keyColumn _ _
  · exact Mapping.sqlName_fieldColumn d.name_chars (d.field_accepted hf) _
  · exact Mapping.sqlName_stampColumn _ hkey

theorem keys_eq : d.table.columns.map Column.key = "id" :: d.fields.map Field.name ++
    if d.options.timestamps then Mapping.timestampFields else [] := by
  rw [d.columns_eq, List.map_append, List.map_cons, List.map_map]
  cases d.options.timestamps <;> rfl

/-- The keys of a table are distinct if the names of its fields are. -/
theorem keys_nodup (h : (d.fields.map Field.name).Nodup) : (d.table.columns.map Column.key).Nodup := by
  have hid : "id" ∉ d.fields.map Field.name := by
    intro hmem
    obtain ⟨f, hf, hname⟩ := List.mem_map.mp hmem
    exact (checkColumnNames_ok d.distinct hf).1 hname
  rw [d.keys_eq]
  by_cases hstamps : d.options.timestamps = true
  · rw [if_pos hstamps]
    have hgenerated : "id" ∉ Mapping.timestampFields ∧ Mapping.timestampFields.Nodup := by decide
    refine List.nodup_append.mpr ⟨List.nodup_cons.mpr ⟨hid, h⟩, hgenerated.2, ?_⟩
    rintro key hkey _ hstamp rfl
    rcases List.mem_cons.mp hkey with rfl | hkey
    · exact hgenerated.1 hstamp
    · obtain ⟨f, hf, rfl⟩ := List.mem_map.mp hkey
      exact (checkColumnNames_ok d.distinct hf).2 hstamps hstamp
  · rw [if_neg hstamps, List.append_nil]
    exact List.nodup_cons.mpr ⟨hid, h⟩

/-- Two columns share a name in the database if their keys differ in capitals inside words only. -/
theorem sqlName_eq_iff {a b : Column} (ha : a ∈ d.table.columns) (hb : b ∈ d.table.columns) :
    a.sqlName = b.sqlName ↔ settle a.key = settle b.key := by
  rw [d.sqlName_eq ha, d.sqlName_eq hb]
  exact snakeCase_eq_iff (Field.isFieldName_chomp (d.key_isFieldName ha))
    (Field.isFieldName_chomp (d.key_isFieldName hb))

end Definition

namespace Mapping

/-- The keys of a table are distinct if the names of its fields are. The names in the database are the
keys in snake case, and are distinct exactly if the keys differ in more than capitals inside words. -/
theorem columns_distinct_iff {model : String} {raws : List String} {fields : List Field}
    (accepted : validateModelName model = .ok ()) (parsed : Field.parseAll raws = .ok fields)
    (named : (fields.map Field.name).Nodup) (dialect : Dialect) (options : TableOptions)
    (distinct : checkColumnNames fields options.timestamps = .ok ()) :
    ∃ table, standard.table (ModelNames.of model) fields dialect options = .ok table ∧
      (table.columns.map Column.key).Nodup ∧ (∀ c ∈ table.columns, c.sqlName = snakeCase c.key) ∧
      ((table.columns.map Column.sqlName).Nodup ↔
        (table.columns.map fun c => settle c.key).Nodup) := by
  let d := Definition.build model raws dialect options accepted parsed distinct
  have hkeys := d.keys_nodup named
  have hcolumns : d.table.columns.Nodup := hkeys.of_map
  refine ⟨d.table, d.built, hkeys, fun c hc => d.sqlName_eq hc, ?_⟩
  rw [List.nodup_map_iff_inj_on hcolumns, List.nodup_map_iff_inj_on hcolumns]
  refine forall₂_congr fun a ha => forall₂_congr fun b hb => ?_
  rw [d.sqlName_eq_iff ha hb]

/-- An acronym in the name of a field does no harm where no other field has its letters. -/
theorem columns_distinct_iff_post :
    let raws := ["sourceURL:string", "state:enum:open,closed", "createdOn:date"]
    let fields : List Field := [
      { name := "sourceURL" }, { name := "state", type := .enum, enumValues := some ["open", "closed"] },
      { name := "createdOn", type := .date }]
    validateModelName "Post" = .ok () ∧ Field.parseAll raws = .ok fields ∧
      (fields.map Field.name).Nodup ∧ checkColumnNames fields true = .ok () ∧
      ∃ table, standard.table (ModelNames.of "Post") fields .postgresql {} = .ok table ∧
        (table.columns.map Column.key).Nodup ∧ (table.columns.map Column.sqlName).Nodup := by
  intro raws fields
  have haccepted : validateModelName "Post" = .ok () := rfl
  have hparsed : Field.parseAll raws = .ok fields := by decide
  have hnamed : (fields.map Field.name).Nodup := by decide
  have hdistinct : checkColumnNames fields true = .ok () := by rfl
  obtain ⟨table, htable, hkeys, -, hnames⟩ :=
    columns_distinct_iff haccepted hparsed hnamed .postgresql {} hdistinct
  refine ⟨haccepted, hparsed, hnamed, hdistinct, table, htable, hkeys, hnames.mpr ?_⟩
  have hcomputed : (standard.table (ModelNames.of "Post") fields .postgresql {}).map
      (fun table => table.columns.map fun c => settle c.key) =
        .ok ["id", "sourceUrl", "state", "createdOn", "createdAt", "updatedAt"] := by
    decide +kernel
  rw [htable] at hcomputed
  have hspelled : (table.columns.map fun c => settle c.key) =
      ["id", "sourceUrl", "state", "createdOn", "createdAt", "updatedAt"] := Except.ok.inj hcomputed
  rw [hspelled]
  decide

/-- A field may take the name of a generated column by its capitals. -/
theorem columns_not_distinct : ¬ ∀ (model : String) (raws : List String) (fields : List Field),
    validateModelName model = .ok () → Field.parseAll raws = .ok fields →
    (fields.map Field.name).Nodup → ∀ (dialect : Dialect) (options : TableOptions),
    checkColumnNames fields options.timestamps = .ok () →
    ∃ table, standard.table (ModelNames.of model) fields dialect options = .ok table ∧
      (table.columns.map Column.key).Nodup ∧ (table.columns.map Column.sqlName).Nodup := by
  intro hall
  obtain ⟨table, htable, -, hnames⟩ := hall "Post" ["createdAT:datetime"]
    [{ name := "createdAT", type := .datetime }] rfl (by decide) (by decide) .sqlite {} rfl
  have hcomputed : (standard.table (ModelNames.of "Post")
      [{ name := "createdAT", type := .datetime }] .sqlite {}).map
        (fun table => table.columns.map Column.sqlName) =
          .ok ["id", "created_at", "created_at", "updated_at"] := by
    decide +kernel
  rw [htable] at hcomputed
  have hcolumns : table.columns.map Column.sqlName = ["id", "created_at", "created_at", "updated_at"] :=
    Except.ok.inj hcomputed
  rw [hcolumns] at hnames
  exact absurd hnames (by decide)

end Mapping
end SchemaScaffold
