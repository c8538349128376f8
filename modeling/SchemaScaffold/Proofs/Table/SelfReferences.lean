import SchemaScaffold.Proofs.Naming.Recasing
import SchemaScaffold.Proofs.Table.Definition

/-!
References of a table to itself. The callback of a foreign key into its own table needs a type, and
the table is recognized by its variable, spelled back from the name of the table. That name has lost
the capitals inside words, so the variable is the one the table is exported under only if there are
none. With one, the table is not recognized, and another table whose variable is spelled without it is
taken for this one.
-/

namespace SchemaScaffold

open Naming Text

/-- The foreign key into a table variable, with a typed callback or a plain one. -/
def callback (dialect : Dialect) (annotated : Bool) (var : String) : String :=
  if annotated then ".references((): " ++ dialect.anyColumnType ++ " => " ++ var ++ ".id)"
  else ".references(() => " ++ var ++ ".id)"

/-- A column ends in the foreign key, and imports the type of the callback only if that is typed. -/
def Column.Refers (c : Column) (dialect : Dialect) (annotated : Bool) (var : String) : Prop :=
  (callback dialect annotated var).toList <:+ c.expression.toList ∧
    (dialect.anyColumnType ∈ c.imports ↔ annotated = true)

namespace Mapping

theorem foreignKey_eq (dialect : Dialect) {table : String} (htable : table ≠ "") (target : String) :
    foreignKey dialect table target =
      (callback dialect (tableVariable target == camelCase table) (tableVariable target),
        if tableVariable target == camelCase table then [dialect.anyColumnType] else []) := by
  have hnamed : table.isEmpty = false := by simpa using htable
  unfold foreignKey callback
  simp only [hnamed, Bool.not_false, Bool.true_and]
  split <;> rfl

/-- A column refers to its target by the typed callback just where the variable is that of the table's
name in camel case. -/
theorem refers_iff {f : Field} (hf : f.isReference = true) (dialect : Dialect) {table : String}
    (htable : table ≠ "") (annotated : Bool) :
    (fieldColumn dialect table f).Refers dialect annotated (tableVariable (f.target.getD "")) ↔
      annotated = (tableVariable (f.target.getD "") == camelCase table) := by
  have hreference := foreignKey_eq dialect htable (f.target.getD "")
  generalize tableVariable (f.target.getD "") = var at *
  have hbuilder : dialect.anyColumnType ≠ (standardType dialect f.type).builder := by
    cases dialect <;> cases f.type <;> decide
  have himports : dialect.anyColumnType ∈ (fieldColumn dialect table f).imports ↔
      (var == camelCase table) = true := by
    simp only [fieldColumn, reference, hf, if_true, hreference, List.mem_cons, hbuilder, false_or]
    split <;> simp_all
  constructor
  · rintro ⟨-, htyped⟩
    rw [himports] at htyped
    exact Bool.eq_iff_iff.mpr htyped.symm
  · rintro rfl
    refine ⟨?_, himports⟩
    simp only [fieldColumn, reference, hf, if_true, hreference, String.toList_append]
    exact List.suffix_append _ _

theorem column_of_field {names : ModelNames} {fields : List Field} {i : Nat} {f : Field}
    (hf : fields[i]? = some f) (dialect : Dialect) (options : TableOptions) :
    (standardTable names fields dialect options).columns[i + 1]? =
      some (fieldColumn dialect names.tableName f) := by
  have hi : i < fields.length := (List.getElem?_eq_some_iff.mp hf).1
  rw [standardTable, standardColumns, List.cons_append, List.getElem?_cons_succ,
    List.getElem?_append_left (by simpa using hi), List.getElem?_map, hf]
  rfl

/-- Two tests of one variable agree if they are one test, or if both fail. -/
theorem beq_eq_beq_iff {var a b : String} :
    (var == a) = (var == b) ↔ b = a ∨ var ≠ a ∧ var ≠ b := by
  rw [Bool.eq_iff_iff, beq_iff_eq, beq_iff_eq]
  constructor
  · intro h
    by_cases ha : var = a
    · exact .inl ((h.mp ha).symm.trans ha)
    · exact .inr ⟨ha, fun hb => ha (h.mpr hb)⟩
  · rintro (rfl | ⟨ha, hb⟩)
    · exact Iff.rfl
    · exact iff_of_false ha hb

/-- A reference is annotated as a reference of the table to itself just where it is one, exactly if no
word of the plural but the first has a capital inside, or the variable is told from both spellings of
the table's own. -/
theorem reference_annotated_iff {model : String} {raws : List String} {fields : List Field}
    (accepted : validateModelName model = .ok ()) (named : (ModelNames.of model).tableName ≠ "")
    (parsed : Field.parseAll raws = .ok fields) (dialect : Dialect) (options : TableOptions)
    (distinct : checkColumnNames fields options.timestamps = .ok ()) :
    ∃ table, standard.table (ModelNames.of model) fields dialect options = .ok table ∧
      ∀ i f, fields[i]? = some f → f.isReference = true →
        ∃ c var, table.columns[i + 1]? = some c ∧ var = tableVariable (f.target.getD "") ∧
          (c.Refers dialect (var == (ModelNames.of model).camelPlural) var ↔
            (∀ w ∈ (words (ModelNames.of model).pluralName).tail, ∀ x ∈ w.tail, x.isUpper = false) ∨
              var ≠ (ModelNames.of model).camelPlural ∧ var ≠ camelCase table.name) := by
  let d := Definition.build model raws dialect options accepted parsed distinct
  have hmany : (ModelNames.of model).pluralName = plural (singular model) := by rw [ModelNames.of]
  have hvar : (ModelNames.of model).camelPlural = camelCase (plural (singular model)) := by
    rw [ModelNames.of]
  have htable : (ModelNames.of model).tableName = snakeCase (plural (singular model)) := by
    rw [ModelNames.of]
  have hspelled : camelCase (ModelNames.of model).tableName = (ModelNames.of model).camelPlural ↔
      ∀ w ∈ (words (ModelNames.of model).pluralName).tail, ∀ x ∈ w.tail, x.isUpper = false := by
    rw [htable, hvar, hmany]
    exact camelCase_snakeCase_iff d.plural_chars
  refine ⟨d.table, d.built, fun i f hf href => ?_⟩
  refine ⟨_, _, column_of_field hf dialect options, rfl, ?_⟩
  rw [refers_iff href dialect named, ← hspelled, ← d.tableName_eq]
  exact beq_eq_beq_iff

/-- A category refers to its parent with a type, and to its owner without one. -/
theorem reference_annotated_iff_category :
    let raws := ["parentId?:references:category", "ownerId:references:User"]
    let fields : List Field := [
      { name := "parentId", type := .reference, nullable := true, target := some "category" },
      { name := "ownerId", type := .reference, target := some "User" }]
    validateModelName "Category" = .ok () ∧ (ModelNames.of "Category").tableName ≠ "" ∧
      Field.parseAll raws = .ok fields ∧ checkColumnNames fields true = .ok () ∧
      ∃ table parent owner, standard.table (ModelNames.of "Category") fields .mysql {} = .ok table ∧
        table.columns[1]? = some parent ∧ parent.Refers .mysql true "categories" ∧
        table.columns[2]? = some owner ∧ owner.Refers .mysql false "users" := by
  intro raws fields
  have haccepted : validateModelName "Category" = .ok () := rfl
  have hname : (ModelNames.of "Category").tableName ≠ "" := by decide
  have hparsed : Field.parseAll raws = .ok fields := by decide
  have hdistinct : checkColumnNames fields true = .ok () := by rfl
  obtain ⟨table, htable, hrefs⟩ :=
    reference_annotated_iff haccepted hname hparsed .mysql {} hdistinct
  obtain ⟨parent, var, hparent, hvar, hself⟩ := hrefs 0 _ rfl rfl
  obtain ⟨owner, var', howner, hvar', hother⟩ := hrefs 1 _ rfl rfl
  obtain rfl : var = "categories" := hvar.trans (by decide)
  obtain rfl : var' = "users" := hvar'.trans (by decide)
  have hplain : ∀ w ∈ (words (ModelNames.of "Category").pluralName).tail, ∀ x ∈ w.tail,
      x.isUpper = false := by
    decide
  refine ⟨haccepted, hname, hparsed, hdistinct, table, parent, owner, htable, hparent, ?_, howner, ?_⟩
  · exact hself.mpr (.inl hplain)
  · exact hother.mpr (.inl hplain)

/-- A table whose plural has a capital inside a word does not recognize itself. -/
theorem reference_not_annotated :
    ¬ ∀ (model : String) (raws : List String) (fields : List Field),
      validateModelName model = .ok () → (ModelNames.of model).tableName ≠ "" →
      Field.parseAll raws = .ok fields → ∀ (dialect : Dialect) (options : TableOptions),
      checkColumnNames fields options.timestamps = .ok () →
      ∃ table, standard.table (ModelNames.of model) fields dialect options = .ok table ∧
        ∀ i f, fields[i]? = some f → f.isReference = true →
          ∃ c var, table.columns[i + 1]? = some c ∧ var = tableVariable (f.target.getD "") ∧
            c.Refers dialect (var == (ModelNames.of model).camelPlural) var := by
  intro hall
  have hself : tableVariable "BlogURL" == (ModelNames.of "BlogURL").camelPlural := by decide
  obtain ⟨table, htable, hrefs⟩ := hall "BlogURL" ["parentId:references:BlogURL"]
    [{ name := "parentId", type := .reference, target := some "BlogURL" }] rfl (by decide) (by decide)
    .sqlite {} rfl
  obtain ⟨c, var, hc, rfl, -, himport⟩ := hrefs 0 _ rfl rfl
  have hcomputed : (standard.table (ModelNames.of "BlogURL")
      [{ name := "parentId", type := .reference, target := some "BlogURL" }] .sqlite {}).map
        (fun table => table.columns[1]?.map Column.imports) = .ok (some ["integer"]) := by
    decide +kernel
  rw [htable] at hcomputed
  have himports : table.columns[0 + 1]?.map Column.imports = some ["integer"] := Except.ok.inj hcomputed
  rw [hc, Option.map_some, Option.some_inj] at himports
  rw [himports] at himport
  exact absurd (himport.mpr hself) (by decide)

end Mapping
end SchemaScaffold
