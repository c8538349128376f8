import SchemaScaffold.Proofs.Generated.Plain
import SchemaScaffold.Proofs.Naming.Plurals

/-!
Whether the variables that a generated module takes from the model's name stand clear of everything
else that the module declares. The other names are fixed, or a fixed prefix before a spelling of the
model in capitals. A variable is never one with a prefix: it starts small, and neither number of a
name is the other one with so much in front. So it can only meet the fixed names and the reserved
words of the language, and it does meet some of them.
-/

namespace SchemaScaffold.Generated

open Naming

/-- The words that cannot name a variable of a module. -/
def reservedWords : List String :=
  ["await", "break", "case", "catch", "class", "const", "continue", "debugger", "default", "delete",
    "do", "else", "enum", "export", "extends", "false", "finally", "for", "function", "if", "import",
    "in", "instanceof", "new", "null", "return", "super", "switch", "this", "throw", "true", "try",
    "typeof", "var", "void", "while", "with", "yield", "let", "static", "implements", "interface",
    "package", "private", "protected", "public"]

/-- An identifier without letters beyond the ASCII ones. -/
def isIdentifier (x : String) : Bool :=
  x.toList.head?.any (fun c => c.isAlpha || c == '_' || c == '$') &&
    x.toList.all fun c => c.isAlphanum || c == '_' || c == '$'

/-- A variable that its module declares once, and nothing else by the same name. -/
structure Clear (lines : List Line) (x : String) : Prop where
  identifier : isIdentifier x = true
  free : x ∉ reservedWords
  once : (declared lines).count x = 1

/-- The variables of a module that are named after the model: its table, or its records. -/
def Template.variables (m : Model) : Template → List String
  | .actions => [m.table]
  | .indexPage => [m.table, m.record]
  | .newPage => []
  | .showPage => [m.record]
  | .editPage => [m.record]
  | .collectionRoute => [m.table]
  | .memberRoute => [m.table]

/-! ## Variables of a model -/

def startsSmall (x : String) : Bool := x.toList.head?.any Char.isLower

/-- Whether a name could be the variable of a table. -/
def isTable (x : String) : Bool :=
  startsSmall x && pluralWords.any fun word => word.toList.isSuffixOf (x.toList.map Char.toLower)

/-- What is known of a model's names, whatever the model. -/
structure Inflected (names : ModelNames) : Prop where
  table : isTable names.camelPlural = true
  item : startsSmall names.camelName = true
  one : startsSmall names.pascalName = false ∧ names.pascalName ≠ ""
  many : startsSmall names.pascalPlural = false ∧ names.pascalPlural ≠ ""
  tableChars : ∀ c ∈ names.camelPlural.toList, c.isAlphanum = true
  itemChars : ∀ c ∈ names.camelName.toList, c.isAlphanum = true
  lengthOne : names.pascalName.toList.length = names.camelName.toList.length
  lengthMany : names.pascalPlural.toList.length = names.camelPlural.toList.length
  longer : names.camelName.toList.length ≤ names.camelPlural.toList.length + 1
  unprefixed : ∀ x : String, 3 ≤ x.toList.length → x ++ names.pascalName ≠ names.camelPlural

theorem isTable_camelCase {s : String} (h : ∀ c ∈ s.toList, isNameChar c = true)
    (hletter : Lettered s.toList) (hne : s.toList ≠ []) {one : List Char}
    (hplural : IsPlural one (spelled s.toList)) : isTable (camelCase s) = true := by
  have hsmall := camelCase_first h hletter hne
  rw [isTable, startsSmall, hsmall, Bool.true_and, camelCase_letters h, ← spelled]
  rcases hplural.ends with hnil | ⟨word, hword, hends⟩
  · have hlength := length_camelCase h
    rw [hnil] at hlength
    rw [List.eq_nil_of_length_eq_zero hlength] at hsmall
    cases hsmall
  · exact List.any_eq_true.mpr ⟨word, hword, List.isSuffixOf_iff_suffix.mpr hends⟩

theorem startsSmall_pascalCase {s : String} (h : ∀ c ∈ s.toList, isNameChar c = true)
    (hletter : Lettered s.toList) (hne : s.toList ≠ []) :
    startsSmall (pascalCase s) = false ∧ pascalCase s ≠ "" := by
  have hcapital := pascalCase_first h hletter hne
  rw [startsSmall]
  cases hc : (pascalCase s).toList.head? with
  | none =>
    rw [hc] at hcapital
    cases hcapital
  | some c =>
    rw [hc, Option.any_some] at hcapital
    constructor
    · exact not_isLower_of_isUpper hcapital
    · rintro hnil
      rw [hnil] at hc
      cases hc

theorem inflected {name : String} (h : validateModelName name = .ok ())
    (htable : (ModelNames.of name).tableName ≠ "") : Inflected (ModelNames.of name) := by
  obtain ⟨hone, hmany, hlettered, hlettered', hne, hne', hplural⟩ := numbered h htable
  have hcamelName := camelName_eq name
  have hcamelPlural := camelPlural_eq name
  have hpascalName := pascalName_eq name
  have hpascalPlural := pascalPlural_eq name
  exact {
    table := hcamelPlural ▸ isTable_camelCase hmany hlettered' hne' hplural
    item := hcamelName ▸ camelCase_first hone hlettered hne
    one := hpascalName ▸ startsSmall_pascalCase hone hlettered hne
    many := hpascalPlural ▸ startsSmall_pascalCase hmany hlettered' hne'
    tableChars := hcamelPlural ▸ camelCase_chars hmany
    itemChars := hcamelName ▸ camelCase_chars hone
    lengthOne := by rw [hpascalName, hcamelName, length_camelCase hone, length_pascalCase hone]
    lengthMany := by rw [hpascalPlural, hcamelPlural, length_camelCase hmany, length_pascalCase hmany]
    longer := by
      rw [hcamelName, hcamelPlural, length_camelCase hone, length_camelCase hmany]
      exact hplural.length_le
    unprefixed := by
      intro x hx he
      have hletters := congrArg (fun s => s.toList.map Char.toLower) he
      simp only [String.toList_append, List.map_append, hpascalName, hcamelPlural,
        pascalCase_letters hone, camelCase_letters hmany] at hletters
      exact hplural.not_prefixed (by simpa using hx) hletters.symm }

/-! ## Declared names -/

@[simp]
theorem declared_nil : declared [] = [] := rfl

@[simp]
theorem declared_cons (line : Line) (lines : List Line) :
    declared (line :: lines) = line.names ++ declared lines := List.flatMap_cons

@[simp]
theorem declared_append (a b : List Line) : declared (a ++ b) = declared a ++ declared b :=
  List.flatMap_append

@[simp]
theorem declared_plains (texts : List String) : declared (plains texts) = [] := by
  simp [declared, plains, Line.names]

theorem declared_foundRecordLines (m : Model) (page : String) :
    declared (foundRecordLines m page) = ["Props", page, "params", "id", m.record] := by
  simp [foundRecordLines, Line.names, Binder.names]

theorem declared_failedLines (handler path failure : String) (checksBody : Bool) :
    declared (failedLines handler path failure checksBody) = ["error"] := by
  simp [failedLines, Line.names]

theorem declared_handlerLines (m : Model) (name : String) : declared (handlerLines m name) =
    [name, "request", "params", "id"] ++ if m.options.uuid then [] else ["numericId"] := by
  cases huuid : m.options.uuid <;> simp [handlerLines, huuid, Line.names, Binder.names]

theorem declared_selectedLines (m : Model) : declared (selectedLines m) = ["result"] := by
  simp [selectedLines, Line.names, Binder.names]

/-- A variable is clear if it is not reserved and the lines declare nothing else by its name. -/
theorem clear_iff {lines : List Line} {x : String} {before after : List String}
    (hx : isIdentifier x = true) (h : declared lines = before ++ x :: after) :
    Clear lines x ↔ x ∉ reservedWords ∧ x ∉ before ++ after := by
  have hcount : (declared lines).count x = 1 ↔ x ∉ before ++ after := by
    rw [h, List.count_append, List.count_cons_self, ← List.count_eq_zero, List.count_append]
    omega
  exact ⟨fun hclear => ⟨hclear.free, hcount.mp hclear.once⟩,
    fun ⟨hfree, hother⟩ => ⟨hx, hfree, hcount.mpr hother⟩⟩

theorem identifier_of_small {x : String} (hsmall : startsSmall x = true)
    (hchars : ∀ c ∈ x.toList, c.isAlphanum = true) : isIdentifier x = true := by
  rw [isIdentifier, Bool.and_eq_true]
  constructor
  · cases hfirst : x.toList.head? with
    | none =>
      rw [startsSmall, hfirst] at hsmall
      cases hsmall
    | some c =>
      rw [startsSmall, hfirst, Option.any_some] at hsmall
      have halpha : c.isAlpha = (c.isUpper || c.isLower) := rfl
      simp [halpha, hsmall]
  · exact List.all_eq_true.mpr fun c hc => by simp [hchars c hc]

/-! ## The variable of the table -/

namespace Inflected

variable {names : ModelNames}

theorem tableSmall (h : Inflected names) : startsSmall names.camelPlural = true :=
  (Bool.and_eq_true_iff.mp h.table).1

theorem table_ne (h : Inflected names) {x : String} (hx : isTable x = false) :
    names.camelPlural ≠ x := by
  rintro rfl
  rw [h.table] at hx
  cases hx

theorem table_ne_capital (h : Inflected names) {x : String} (hx : startsSmall x = false) :
    names.camelPlural ≠ x := h.table_ne (by rw [isTable, hx, Bool.false_and])

theorem table_ne_one (h : Inflected names) {x : String} (hx : 3 ≤ x.toList.length) :
    names.camelPlural ≠ x ++ names.pascalName := fun he => h.unprefixed x hx he.symm

theorem table_ne_many (h : Inflected names) {x : String} (hx : x ≠ "") :
    names.camelPlural ≠ x ++ names.pascalPlural := by
  intro he
  have hlength := congrArg (List.length ∘ String.toList) he
  have hmany := h.lengthMany
  have hpos : x.toList.length ≠ 0 := by simpa using hx
  simp only [Function.comp_apply, String.toList_append, List.length_append] at hlength
  omega

end Inflected

/-- The names that modules declare whatever the model, and that no table has. -/
def fixedNames : List String :=
  ["db", "eq", "desc", "revalidatePath", "id", "result", "inserted", "NextResponse", "GET", "POST",
    "PATCH", "DELETE", "error", "request", "body", "Params", "numericId", "Link"]

theorem Inflected.table_fixed {names : ModelNames} (h : Inflected names) :
    ∀ x ∈ fixedNames, names.camelPlural ≠ x := by
  have hall : ∀ x ∈ fixedNames, isTable x = false := by decide
  exact fun x hx => h.table_ne (hall x hx)

section Table

variable {m : Model}

theorem identifier_table (h : Inflected m.names) : isIdentifier m.table = true :=
  identifier_of_small h.tableSmall h.tableChars

theorem clear_actions_iff (h : Inflected m.names) :
    Clear (actionLines m) m.table ↔ m.table ∉ reservedWords ∧ m.table ≠ "data" := by
  let results := if m.returning then ["result"] else ["inserted", "result"]
  have hdeclared : declared (actionLines m) = ["db"] ++ m.table ::
      (["eq", "desc", "revalidatePath", m.names.pascalName, "New" ++ m.names.pascalName,
        "get" ++ m.names.pascalPlural, "get" ++ m.names.pascalName, "id", "result",
        "create" ++ m.names.pascalName, "data"] ++ results ++
      ["update" ++ m.names.pascalName, "id", "data", "result", "delete" ++ m.names.pascalName,
        "id"]) := by
    cases hreturning : m.returning <;>
      simp [results, actionLines, createdLines, updatedLines, hreturning, Line.names, Binder.names,
        toString]
  rw [clear_iff (identifier_table h) hdeclared]
  have hfixed := h.table_fixed
  simp only [fixedNames, List.forall_mem_cons] at hfixed
  have hone := h.table_ne_capital h.one.1
  cases hreturning : m.returning <;>
    simp [results, hreturning, Model.table, hfixed, h.table_ne_one, h.table_ne_many, hone]

theorem clear_collection_iff (h : Inflected m.names) :
    Clear (collectionLines m) m.table ↔ m.table ∉ reservedWords ∧ m.table ≠ "data" := by
  have hdeclared : declared (collectionLines m) = ["db"] ++ m.table ::
      ((if m.returning then ["desc"] else ["desc", "eq"]) ++
        ["NextResponse", "GET", "data", "error", "POST", "request", "body"] ++
        (if m.returning then ["result"] else ["inserted", "result"]) ++ ["error"]) := by
    cases hreturning : m.returning <;>
      simp [collectionLines, declared_failedLines, hreturning, Line.names, Binder.names]
  rw [clear_iff (identifier_table h) hdeclared]
  have hfixed := h.table_fixed
  simp only [fixedNames, List.forall_mem_cons] at hfixed
  cases m.returning <;> simp [Model.table, hfixed]

theorem clear_member_iff (h : Inflected m.names) :
    Clear (memberLines m) m.table ↔ m.table ∉ reservedWords ∧ m.table ≠ "params" := by
  have hdeclared : declared (memberLines m) = ["db"] ++ m.table ::
      (["eq", "NextResponse", "Params"] ++ declared (handlerLines m "GET") ++ ["result", "error"] ++
        declared (handlerLines m "PATCH") ++ ["body", "result", "error"] ++
        declared (handlerLines m "DELETE") ++ ["error"]) := by
    cases hreturning : m.returning <;>
      simp [memberLines, declared_failedLines, declared_selectedLines, hreturning, Line.names,
        Binder.names]
  rw [clear_iff (identifier_table h) hdeclared]
  have hfixed := h.table_fixed
  simp only [fixedNames, List.forall_mem_cons] at hfixed
  cases huuid : m.options.uuid <;> simp [declared_handlerLines, huuid, Model.table, hfixed]

end Table

/-! ## The variable of a record -/

section Record

variable {m : Model}

theorem record_cases (m : Model) :
    (m.record = m.names.camelName ∧ m.names.camelName ≠ m.names.camelPlural) ∨ m.record = "record" := by
  unfold Model.record
  split
  · rename_i hne
    exact .inl ⟨rfl, by simpa using hne⟩
  · exact .inr rfl

theorem record_small (h : Inflected m.names) : startsSmall m.record = true := by
  rcases record_cases m with ⟨hrecord, -⟩ | hrecord <;> rw [hrecord]
  · exact h.item
  · decide

theorem identifier_record (h : Inflected m.names) : isIdentifier m.record = true := by
  refine identifier_of_small (record_small h) ?_
  rcases record_cases m with ⟨hrecord, -⟩ | hrecord <;> rw [hrecord]
  · exact h.itemChars
  · exact List.all_eq_true.mp (by decide)

theorem record_ne_table (h : Inflected m.names) : m.record ≠ m.table := by
  rcases record_cases m with ⟨hrecord, hne⟩ | hrecord <;> rw [hrecord]
  · exact hne
  · exact (h.table_ne (by decide)).symm

theorem record_ne_capital (h : Inflected m.names) {x : String} (hx : startsSmall x = false) :
    m.record ≠ x := by
  rintro rfl
  rw [record_small h] at hx
  cases hx

theorem startsSmall_append {x : String} (hx : startsSmall x = false) (hne : x ≠ "") (y : String) :
    startsSmall (x ++ y) = false := by
  obtain ⟨c, cs, hc⟩ := List.exists_cons_of_ne_nil fun hnil => hne (String.toList_eq_nil_iff.mp hnil)
  rw [startsSmall, hc] at hx
  rw [startsSmall, String.toList_append, hc]
  exact hx

/-- The functions that the pages import end in a spelling of the model that is too long. -/
theorem record_ne_function (h : Inflected m.names) {x y : String} (hx : x ∈ ["get", "update", "delete"])
    (hy : y = m.names.pascalName ∨ y = m.names.pascalPlural) : m.record ≠ x ++ y := by
  have hprefixes : ∀ x ∈ ["get", "update", "delete"],
      3 ≤ x.toList.length ∧ x.toList.head?.any (· != 'r') = true := by
    decide
  obtain ⟨hthree, hfirst⟩ := hprefixes x hx
  intro he
  have hlist := congrArg String.toList he
  rw [String.toList_append] at hlist
  rcases record_cases m with ⟨hrecord, -⟩ | hrecord
  · have hlength := congrArg List.length hlist
    rw [hrecord, List.length_append] at hlength
    have := h.lengthOne
    have := h.lengthMany
    have := h.longer
    rcases hy with rfl | rfl <;> omega
  · rw [hrecord] at hlist
    cases hhead : x.toList with
    | nil => simp [hhead] at hthree
    | cons c cs =>
      rw [hhead, List.head?_cons, Option.any_some, bne_iff_ne] at hfirst
      rw [hhead, List.cons_append] at hlist
      exact hfirst (List.cons.inj hlist).1.symm

theorem clear_list_iff (h : Inflected m.names) (fields : List Field) :
    Clear (indexLines m fields) m.table ↔ m.table ∉ reservedWords := by
  have hdeclared : declared (indexLines m fields) = ["Link", "get" ++ m.names.pascalPlural,
      "delete" ++ m.names.pascalName, m.names.pascalPlural ++ "Page"] ++ m.table :: [m.record] := by
    simp [indexLines, Line.names, Binder.names, toString]
  rw [clear_iff (identifier_table h) hdeclared]
  have hlink := h.table_ne_capital (x := "Link") (by decide)
  have hpage := h.table_ne_capital (startsSmall_append h.many.1 h.many.2 "Page")
  have hrecord := (record_ne_table h).symm
  simp_all [Model.table, h.table_ne_one, h.table_ne_many]

theorem clear_item_iff (h : Inflected m.names) (fields : List Field) :
    Clear (indexLines m fields) m.record ↔ m.record ∉ reservedWords := by
  have hdeclared : declared (indexLines m fields) = ["Link", "get" ++ m.names.pascalPlural,
      "delete" ++ m.names.pascalName, m.names.pascalPlural ++ "Page", m.table] ++ m.record :: [] := by
    simp [indexLines, Line.names, Binder.names, toString]
  rw [clear_iff (identifier_record h) hdeclared]
  have hlink := record_ne_capital h (x := "Link") (by decide)
  have hpage := record_ne_capital h (startsSmall_append h.many.1 h.many.2 "Page")
  simp [hlink, hpage, record_ne_table h, record_ne_function h]

theorem clear_show_iff (h : Inflected m.names) (fields : List Field) :
    Clear (showLines m fields) m.record ↔
      m.record ∉ reservedWords ∧ m.record ∉ ["notFound", "params", "id"] := by
  have hdeclared : declared (showLines m fields) = ["Link", "notFound", "get" ++ m.names.pascalName,
      "Props", m.names.pascalName ++ "Page", "params", "id"] ++ m.record :: [] := by
    simp [showLines, declared_foundRecordLines, Line.names, toString]
  rw [clear_iff (identifier_record h) hdeclared]
  have hlink := record_ne_capital h (x := "Link") (by decide)
  have hprops := record_ne_capital h (x := "Props") (by decide)
  have hpage := record_ne_capital h (startsSmall_append h.one.1 h.one.2 "Page")
  simp [hlink, hprops, hpage, record_ne_function h]

theorem clear_edit_iff (h : Inflected m.names) (fields : List Field) :
    Clear (editLines m fields) m.record ↔ m.record ∉ reservedWords ∧
      m.record ∉ ["notFound", "redirect", "params", "id", "action", "formData"] := by
  have hdeclared : declared (editLines m fields) = (["Link", "notFound", "redirect",
      "get" ++ m.names.pascalName, "update" ++ m.names.pascalName] ++ newTypes m fields ++
      ["Props", "Edit" ++ m.names.pascalName ++ "Page", "params", "id"]) ++
      m.record :: ["action", "formData"] := by
    simp [editLines, declared_foundRecordLines, Line.names, Binder.names, toString]
  rw [clear_iff (identifier_record h) hdeclared]
  have hlink := record_ne_capital h (x := "Link") (by decide)
  have hprops := record_ne_capital h (x := "Props") (by decide)
  have hpage (y : String) := record_ne_capital h (startsSmall_append (x := "Edit") (by decide) (by decide) y)
  have hnew : m.record ∉ newTypes m fields := by
    have := record_ne_capital h (startsSmall_append (x := "New") (by decide) (by decide) m.names.pascalName)
    unfold newTypes
    split <;> simp [this, toString]
  simp [hlink, hprops, hpage, hnew, record_ne_function h, String.append_assoc]

end Record

/-! ## All modules -/

/-- The names beside the reserved words that the variable of a table meets in some module, and those
that the variable of a record meets. -/
def tableClashes : List String := reservedWords ++ ["data", "params"]

def recordClashes : List String :=
  reservedWords ++ ["notFound", "redirect", "params", "id", "action", "formData"]

/-- A model has one module of each kind. -/
theorem forall_modules {p : Template → Prop} (project : Project) (names : ModelNames)
    (options : TableOptions) (fields : List Field) :
    (∀ generated ∈ modules project names options fields, p generated.template) ↔ ∀ template, p template := by
  constructor
  · intro hall template
    have hmem : template ∈ (modules project names options fields).map Module.template := by
      cases template <;> simp [modules, actionModules, pageModules, routeModules]
    obtain ⟨generated, hgenerated, rfl⟩ := List.mem_map.mp hmem
    exact hall generated hgenerated
  · exact fun hall generated _ => hall generated.template

theorem clear_variables_iff {m : Model} (h : Inflected m.names) (fields : List Field) :
    (∀ template : Template, ∀ x ∈ template.variables m, Clear (template.lines m fields) x) ↔
      m.table ∉ tableClashes ∧ m.record ∉ recordClashes := by
  constructor
  · intro hall
    have hactions := (clear_actions_iff h).mp (hall .actions _ (by simp [Template.variables]))
    have hmember := (clear_member_iff h).mp (hall .memberRoute _ (by simp [Template.variables]))
    have hedit := (clear_edit_iff h fields).mp (hall .editPage _ (by simp [Template.variables]))
    exact ⟨by simp [tableClashes, hactions, hmember], by simpa [recordClashes, and_assoc] using hedit⟩
  · rintro ⟨htable, hrecord⟩
    rw [tableClashes, List.mem_append, not_or] at htable
    rw [recordClashes, List.mem_append, not_or] at hrecord
    obtain ⟨htable, hothers⟩ := htable
    obtain ⟨hrecord, hmet⟩ := hrecord
    intro template x hx
    cases template with
    | actions =>
      rw [List.mem_singleton.mp hx]
      exact (clear_actions_iff h).mpr ⟨htable, fun he => hothers (by simp [he])⟩
    | indexPage =>
      rcases List.mem_cons.mp hx with rfl | hx
      · exact (clear_list_iff h fields).mpr htable
      · rw [List.mem_singleton.mp hx]
        exact (clear_item_iff h fields).mpr hrecord
    | newPage => cases hx
    | showPage =>
      rw [List.mem_singleton.mp hx]
      refine (clear_show_iff h fields).mpr ⟨hrecord, fun hmem => hmet ?_⟩
      exact List.Sublist.mem hmem (by decide)
    | editPage =>
      rw [List.mem_singleton.mp hx]
      exact (clear_edit_iff h fields).mpr ⟨hrecord, hmet⟩
    | collectionRoute =>
      rw [List.mem_singleton.mp hx]
      exact (clear_collection_iff h).mpr ⟨htable, fun he => hothers (by simp [he])⟩
    | memberRoute =>
      rw [List.mem_singleton.mp hx]
      exact (clear_member_iff h).mpr ⟨htable, fun he => hothers (by simp [he])⟩

/-- The modules of a model are read whole, and their variables are clear of all other names exactly
if neither the table nor the record is called by one that clashes. -/
theorem variables_clear_iff {name : String} (h : validateModelName name = .ok ())
    (htable : (ModelNames.of name).tableName ≠ "") {raws : List String} {fields : List Field}
    (hfields : Field.parseAll raws = .ok fields) (project : Project) (options : TableOptions) :
    let m : Model := .of project (ModelNames.of name) options
    (∀ generated ∈ modules project (ModelNames.of name) options fields,
      spell (generated.template.lines m fields) = generated.content ∧
        (generated.template.lines m fields).all Line.honest = true) ∧
    ((∀ generated ∈ modules project (ModelNames.of name) options fields,
        ∀ x ∈ generated.template.variables m, Clear (generated.template.lines m fields) x) ↔
      m.table ∉ tableClashes ∧ m.record ∉ recordClashes) := by
  intro m
  constructor
  · intro generated hmem
    exact ⟨spell_modules project _ options fields generated hmem,
      honest_lines m (Field.parseAll_accepted hfields) generated.template⟩
  · rw [forall_modules (p := fun template => ∀ x ∈ template.variables m,
      Clear (template.lines m fields) x)]
    exact clear_variables_iff (m := m) (inflected h htable) fields

/-- The variables of a post, `posts` and `post`, are clear in every project. -/
theorem variables_clear_iff_post :
    validateModelName "Post" = .ok () ∧ (ModelNames.of "Post").tableName ≠ "" ∧
      Field.parseAll [] = .ok [] ∧ ∀ project options,
        ∀ generated ∈ modules project (ModelNames.of "Post") options [],
          ∀ x ∈ generated.template.variables (.of project (ModelNames.of "Post") options),
            Clear (generated.template.lines (.of project (ModelNames.of "Post") options) []) x := by
  refine ⟨rfl, by decide, rfl, fun project options => ?_⟩
  have hparsed : Field.parseAll [] = .ok [] := rfl
  refine (variables_clear_iff rfl (by decide) hparsed project options).2.mpr ?_
  have htable : (ModelNames.of "Post").camelPlural = "posts" := by decide
  have hrecord : (ModelNames.of "Post").camelName = "post" := by decide
  simp only [Model.table, Model.record, Model.of, htable, hrecord]
  decide

/-- The pages of a class call their record by a reserved word. -/
theorem class_not_clear : ¬ ∀ (name : String) (raws : List String) (fields : List Field)
    (project : Project) (options : TableOptions), validateModelName name = .ok () →
      (ModelNames.of name).tableName ≠ "" → Field.parseAll raws = .ok fields →
        ∀ generated ∈ modules project (ModelNames.of name) options fields,
          ∀ x ∈ generated.template.variables (.of project (ModelNames.of name) options),
            Clear (generated.template.lines (.of project (ModelNames.of name) options) fields) x := by
  intro hall
  let project : Project := { root := [], layout := {}, dialect := .sqlite }
  have hmodules := hall "Class" [] [] project {} rfl (by decide) rfl
  have hclear := (forall_modules (p := fun template =>
    ∀ x ∈ template.variables (.of project (ModelNames.of "Class") {}),
      Clear (template.lines (.of project (ModelNames.of "Class") {}) []) x)
    project (ModelNames.of "Class") {} []).mp hmodules .showPage
  have hrecord : (Model.of project (ModelNames.of "Class") {}).record = "class" := by decide
  have hfree := (hclear _ (List.mem_singleton_self _)).free
  rw [hrecord] at hfree
  exact hfree (by decide)

end SchemaScaffold.Generated
