import SchemaScaffold.Generated.Pages
import SchemaScaffold.Proofs.Generated.Submissions
import SchemaScaffold.Proofs.Naming.Routes

/-!
The controls of a form and what its submission reads agree. The pages with a form share their shape: code
that does not call the action yet, the call with an entry for each field, and the markup with a control
for each. What stands around the controls opens none, and what stands before the call calls nothing of
that name, so both readings find the fields, each once and in order.
-/

namespace SchemaScaffold.Generated

open Naming

variable {m : Model} {fields : List Field}

/-- The form of a page has a control for each field, and passes an entry for each to a function. The
control and the entry have the name of the field, and the entry reads that name. -/
structure FormAgrees (fields : List Field) (callee page : String) : Prop where
  controls : Markup.controls page = fields.map fun field => [field.name]
  entries : Submission.submitted callee page = fields.map fun field => (field.name, [field.name])

/-! ## The names of a model -/

/-- The names that the pages of a model are written with. -/
structure Legible (m : Model) : Prop where
  one : ∀ c ∈ m.names.pascalName.toList, c.isAlphanum = true
  kebab : ∀ c ∈ m.names.kebabPlural.toList, isKebabChar c = true
  record : ∀ c ∈ m.record.toList, c.isAlphanum = true

theorem legible {name : String} (h : validateModelName name = .ok ()) (project : Project)
    (options : TableOptions) : Legible (.of project (.of name) options) := by
  have hsingular := nameChars_singular (validateModelName_chars h)
  refine ⟨?_, kebabPlural_chars h, ?_⟩
  · show ∀ c ∈ (ModelNames.of name).pascalName.toList, _
    rw [pascalName_eq]
    exact pascalCase_chars hsingular
  · unfold Model.record
    split
    · show ∀ c ∈ (ModelNames.of name).camelName.toList, _
      rw [camelName_eq]
      exact camelCase_chars hsingular
    · exact List.all_eq_true.mp (by decide)

theorem Legible.nameChars (h : Legible m) : ∀ c ∈ m.names.pascalName.toList, isNameChar c = true :=
  fun c hc => isNameChar_of_isAlphanum (h.one c hc)

theorem Legible.wordChars (h : Legible m) :
    ∀ c ∈ m.names.pascalName.toList, Submission.isWordChar c = true := fun c hc => by
  rw [Submission.isWordChar, h.one c hc]
  rfl

theorem Legible.functionChars (h : Legible m) {verb : String}
    (hverb : verb.toList.all Submission.isWordChar = true) :
    ∀ c ∈ (verb ++ m.names.pascalName).toList, Submission.isWordChar c = true := by
  rw [String.toList_append]
  exact List.forall_mem_append.mpr ⟨List.all_eq_true.mp hverb, h.wordChars⟩

theorem Legible.pageChars (h : Legible m) {kind : String}
    (hkind : kind.toList.all Submission.isWordChar = true) :
    ∀ c ∈ (kind ++ m.names.pascalName ++ "Page").toList, Submission.isWordChar c = true := by
  rw [String.toList_append]
  exact List.forall_mem_append.mpr ⟨h.functionChars hkind, List.all_eq_true.mp (by decide)⟩

theorem Legible.not_mem (h : Legible m) {c : Char} (hc : c.isAlphanum = false) :
    c ∉ m.names.pascalName.toList := fun hmem => by
  rw [h.one c hmem] at hc
  cases hc

theorem Legible.not_mem_import (h : Legible m) (fields : List Field) {c : Char} (hc : c.isAlphanum = false)
    (hlead : c ∉ ", type New".toList) : c ∉ (newTypeImport m fields).toList := by
  unfold newTypeImport
  split
  · show c ∉ (", type New" ++ m.names.pascalName).toList
    rw [String.toList_append, List.mem_append, not_or]
    exact ⟨hlead, h.not_mem hc⟩
  · exact List.not_mem_nil

/-- The line with the import of the action. -/
theorem Legible.not_mem_line (h : Legible m) (fields : List Field) {c : Char} (hc : c.isAlphanum = false)
    (hlead : c ∉ ", type New".toList) {front back : String} (hfront : c ∉ front.toList)
    (hback : c ∉ back.toList) : c ∉ (front ++ m.names.pascalName ++ newTypeImport m fields ++ back).toList := by
  simp only [String.toList_append, List.mem_append, not_or]
  exact ⟨⟨⟨hfront, h.not_mem hc⟩, h.not_mem_import fields hc hlead⟩, hback⟩

/-! ## The shape of the pages -/

/-- What the lines of a page with a form are, one kind after the other. -/
structure Shape where
  /-- The lines before the call of the action, and what stands in front of the object there. -/
  head : List String
  callee : String
  arguments : String
  redirect : String
  title : String
  button : String
  link : String

namespace Shape

def callLine (p : Shape) : String := "    await " ++ p.callee ++ "(" ++ p.arguments ++ "\x7b"

/-- The lines between the entries and the controls. -/
def between (p : Shape) : List String := [
  "",
  "    \x7d);",
  "",
  p.redirect,
  "  \x7d",
  "",
  "  return (",
  "    <div>",
  p.title,
  "",
  "      <form action=\x7baction\x7d>"]

/-- The lines below the controls. -/
def foot (p : Shape) : List String := [
  p.button,
  "      </form>",
  "",
  p.link,
  "    </div>",
  "  );",
  "\x7d"]

def page (p : Shape) (entries controls : List String) : String :=
  Text.unlines (p.head ++ [p.callLine] ++ entries ++ p.between ++ controls ++ p.foot)

/-- Nothing but the controls is read as a control, and nothing before the call as the call. -/
structure Clean (p : Shape) : Prop where
  callee : ∀ c ∈ p.callee.toList, Submission.isWordChar c = true
  passes : ∀ line ∈ p.head, Submission.Passes p.callee.toList (line.toList ++ ['\n'])
  arguments : '{' ∉ p.arguments.toList
  head : ∀ line ∈ p.head ++ [p.callLine], Markup.Quiet line.toList
  between : ∀ line ∈ p.between, Markup.Quiet line.toList
  foot : ∀ line ∈ p.foot, Markup.Quiet line.toList

theorem bracket_not_mem_entryLine {field : Field} (hname : ∀ c ∈ field.name.toList, isNameChar c = true)
    {pascalName : String} (hpascal : ∀ c ∈ pascalName.toList, c.isAlphanum = true) :
    '<' ∉ (Submission.entryLine pascalName field).toList := by
  have hname : '<' ∉ field.name.toList := Markup.not_mem_name hname (by decide)
  have hpascal : '<' ∉ pascalName.toList := fun hmem => absurd (hpascal _ hmem) (by decide)
  have hraw : '<' ∉ ("formData.get(\"" ++ field.name ++ "\")").toList := by
    simp [String.toList_append, hname]
  have hvalue : '<' ∉ (field.formValue pascalName).toList := by
    unfold Field.formValue
    generalize "formData.get(\"" ++ field.name ++ "\")" = raw at hraw ⊢
    cases field.nullable <;> dsimp only <;> split <;> simp [String.toList_append, hname, hpascal, hraw]
  simp [Submission.entryLine, String.toList_append, hname, hvalue]

theorem Clean.agrees {p : Shape} (h : p.Clean) (hfields : ∀ field ∈ fields, Field.Accepted field)
    {pascalName : String} (hpascal : ∀ c ∈ pascalName.toList, c.isAlphanum = true)
    {record : Option String} (hrecord : ∀ r ∈ record, ∀ c ∈ r.toList, isNameChar c = true) :
    FormAgrees fields p.callee
      (p.page (fields.map (Submission.entryLine pascalName)) (fields.flatMap (fieldLines record))) where
  controls := by
    have hnames : ∀ field ∈ fields, ∀ c ∈ field.name.toList, isNameChar c = true := fun field hfield =>
      (Field.isFieldName_chars (hfields field hfield).name).1
    have hentries : ∀ line ∈ fields.map (Submission.entryLine pascalName), Markup.Quiet line.toList := by
      intro line hline
      obtain ⟨field, hfield, rfl⟩ := List.mem_map.mp hline
      exact Markup.quiet_of_not_mem (bracket_not_mem_entryLine (hnames field hfield) hpascal)
    have hbefore : Markup.Quiet (Text.unlines (p.head ++ [p.callLine] ++
        fields.map (Submission.entryLine pascalName) ++ p.between)).toList :=
      .lines (List.forall_mem_append.mpr ⟨List.forall_mem_append.mpr ⟨h.head, hentries⟩, h.between⟩)
    have hafter : Markup.Quiet (Text.unlines p.foot).toList := .lines h.foot
    rw [Markup.controls, page, Text.toList_unlines_append, Text.toList_unlines_append, List.foldl_append,
      List.foldl_append, hbefore, Markup.read_fields hnames hrecord, hafter, List.nil_append]
  entries := by
    have hawait : Submission.Passes p.callee.toList ("    await".toList ++ [' ']) :=
      Submission.passes_of_not_mem (by decide) (by decide) (by decide)
    have hbetween : ∃ after, (Text.unlines p.between).toList = "\n    \x7d".toList ++ after := by
      refine ⟨");\n".toList ++ (Text.unlines (p.between.drop 2)).toList, ?_⟩
      rw [← List.append_assoc, Shape.between, Text.toList_unlines, Text.toList_unlines]
      rfl
    obtain ⟨after, hafter⟩ := hbetween
    refine Submission.submitted_call h.callee ((Submission.Passes.lines h.passes).append hawait) h.arguments
      hfields hpascal (?_ : _ = _ ++ ("\n    \x7d".toList ++ (after ++ ((Text.unlines
        (fields.flatMap (fieldLines record))).toList ++ (Text.unlines p.foot).toList))))
    have hcall : (Text.unlines [p.callLine]).toList = ("    await".toList ++ [' ']) ++
        (p.callee.toList ++ '(' :: (p.arguments.toList ++ ['{', '\n'])) := by
      rw [Text.toList_unlines]
      simp [callLine, String.toList_append]
    rw [page]
    simp only [Text.toList_unlines_append, hafter, hcall, List.append_assoc]

theorem quiet_between {p : Shape} (hredirect : Markup.Quiet p.redirect.toList)
    (htitle : Markup.Quiet p.title.toList) : ∀ line ∈ p.between, Markup.Quiet line.toList := by
  simp only [between, List.forall_mem_cons, List.not_mem_nil, false_implies, implies_true, and_true]
  refine ⟨?_, ?_, ?_, hredirect, ?_, ?_, ?_, ?_, htitle, ?_, ?_⟩ <;> exact fun _ _ => by cbv

theorem quiet_foot {p : Shape} (hbutton : Markup.Quiet p.button.toList) (hlink : Markup.Quiet p.link.toList) :
    ∀ line ∈ p.foot, Markup.Quiet line.toList := by
  simp only [foot, List.forall_mem_cons, List.not_mem_nil, false_implies, implies_true, and_true]
  refine ⟨hbutton, ?_, ?_, hlink, ?_, ?_, ?_⟩ <;> exact fun _ _ => by cbv

end Shape

theorem quiet_around {a x b : String} (ha : Markup.Quiet a.toList) (hx : Markup.Quiet x.toList)
    (hb : Markup.Quiet b.toList) : Markup.Quiet (a ++ x ++ b).toList := by
  rw [String.toList_append, String.toList_append]
  exact (ha.append hx).append hb

theorem Legible.bracket_not_mem_kebab (h : Legible m) : '<' ∉ m.names.kebabPlural.toList := fun hmem =>
  absurd (h.kebab _ hmem) (by decide)

theorem Legible.quiet_kebab (h : Legible m) : Markup.Quiet m.names.kebabPlural.toList :=
  Markup.quiet_of_not_mem h.bracket_not_mem_kebab

/-- The function that the form calls, when it is submitted, is another one than the action. -/
theorem passes_action {callee : List Char} (hcallee : callee.head? ≠ some 'a') :
    Submission.Passes callee ("  async function action(formData: FormData) \x7b".toList ++ ['\n']) := by
  have htext : "  async function action(formData: FormData) \x7b".toList ++ ['\n'] =
      "  async function".toList ++ ' ' :: ("action".toList ++ '(' :: "formData: FormData) \x7b".toList) ++
        ['\n'] := by decide
  rw [htext]
  exact Submission.passes_line (by decide) (List.all_eq_true.mp (by decide)) (fun he => hcallee (he ▸ rfl))
    (Submission.passes_plain (by decide))

/-! ## The page of a new record -/

def newShape (m : Model) (fields : List Field) : Shape where
  head := [
    "import Link from \"next/link\";",
    "import \x7b redirect \x7d from \"next/navigation\";",
    "import \x7b create" ++ m.names.pascalName ++ newTypeImport m fields ++ " \x7d from \"../actions\";",
    "",
    "export default function New" ++ m.names.pascalName ++ "Page() \x7b",
    "  async function action(formData: FormData) \x7b",
    "    \"use server\";",
    ""]
  callee := "create" ++ m.names.pascalName
  arguments := ""
  redirect := "    redirect(\"/" ++ m.names.kebabPlural ++ "\");"
  title := "      <h1>New " ++ humanize m.names.pascalName ++ "</h1>"
  button := "        <button type=\"submit\">Create " ++ humanize m.names.pascalName ++ "</button>"
  link := "      <Link href=\"/" ++ m.names.kebabPlural ++ "\">Back</Link>"

theorem newPage_eq (m : Model) (fields : List Field) : newPage m fields =
    (newShape m fields).page (fields.map (Submission.entryLine m.names.pascalName))
      (fields.flatMap (fieldLines none)) := by
  have hcall : (newShape m fields).callLine = s!"    await create{m.names.pascalName}(\x7b" := by
    refine String.toList_inj.mp ?_
    simp [Shape.callLine, newShape, toString, String.toList_append]
  have hentries : fields.map (Submission.entryLine m.names.pascalName) =
      fields.map fun field => s!"      {field.name}: {field.formValue m.names.pascalName}," := rfl
  rw [Shape.page, hcall, hentries]
  simp [newPage, newShape, Shape.between, Shape.foot, valueLines, toString]

theorem clean_newShape (h : Legible m) (fields : List Field) : (newShape m fields).Clean where
  callee := h.functionChars (show "create".toList.all Submission.isWordChar = true by decide)
  passes := by
    have hcallee : (newShape m fields).callee.toList.head? = some 'c' := by
      simp [newShape, String.toList_append]
    generalize (newShape m fields).callee.toList = callee at hcallee
    have hpage : ("export default function New" ++ m.names.pascalName ++ "Page() \x7b").toList =
        "export default function".toList ++ ' ' :: (("New" ++ m.names.pascalName ++ "Page").toList ++
          '(' :: ") \x7b".toList) := by
      simp [String.toList_append]
    have hfirst : ("New" ++ m.names.pascalName ++ "Page").toList.head? = some 'N' := by
      simp [String.toList_append]
    simp only [newShape, List.forall_mem_cons, List.not_mem_nil, false_implies, implies_true, and_true]
    refine ⟨?_, ?_, ?_, ?_, ?_, ?_, ?_, ?_⟩
    · exact Submission.passes_plain (by decide)
    · exact Submission.passes_plain (by decide)
    · exact Submission.passes_plain (h.not_mem_line fields (by decide) (by decide) (by decide) (by decide))
    · exact Submission.passes_plain (by decide)
    · rw [hpage]
      refine Submission.passes_line (by decide) (h.pageChars (by decide)) (fun he => ?_)
        (Submission.passes_plain (by decide))
      rw [he, hcallee] at hfirst
      cases hfirst
    · exact passes_action (by rw [hcallee]; decide)
    · exact Submission.passes_plain (by decide)
    · exact Submission.passes_plain (by decide)
  arguments := by simp [newShape]
  head := by
    have hcall : '<' ∉ (newShape m fields).callLine.toList := by
      simp [Shape.callLine, newShape, String.toList_append, h.not_mem (c := '<') (by decide)]
    have hpage : Markup.Quiet m.names.pascalName.toList := Markup.quiet_name h.nameChars
    refine List.forall_mem_append.mpr ⟨?_, by simpa using Markup.quiet_of_not_mem hcall⟩
    simp only [newShape, List.forall_mem_cons, List.not_mem_nil, false_implies, implies_true, and_true]
    refine ⟨?_, ?_, ?_, ?_, ?_, ?_, ?_, ?_⟩
    · exact Markup.quiet_of_not_mem (by decide)
    · exact Markup.quiet_of_not_mem (by decide)
    · exact Markup.quiet_of_not_mem (h.not_mem_line fields (by decide) (by decide) (by decide) (by decide))
    · exact Markup.quiet_of_not_mem (by decide)
    · exact quiet_around (fun _ _ => by cbv) hpage (fun _ _ => by cbv)
    · exact Markup.quiet_of_not_mem (by decide)
    · exact Markup.quiet_of_not_mem (by decide)
    · exact Markup.quiet_of_not_mem (by decide)
  between := by
    refine Shape.quiet_between ?_ ?_
    · exact quiet_around (fun _ _ => by cbv) h.quiet_kebab (fun _ _ => by cbv)
    · exact quiet_around (fun _ _ => by cbv) (Markup.quiet_humanize h.nameChars) (fun _ _ => by cbv)
  foot := by
    refine Shape.quiet_foot ?_ ?_
    · exact quiet_around (fun _ _ => by cbv) (Markup.quiet_humanize h.nameChars) (fun _ _ => by cbv)
    · exact quiet_around (fun _ _ => by cbv) h.quiet_kebab (fun _ _ => by cbv)

/-! ## The page that edits a record -/

def editShape (m : Model) (fields : List Field) : Shape where
  head := [
    "import Link from \"next/link\";",
    "import \x7b notFound, redirect \x7d from \"next/navigation\";",
    "import \x7b get" ++ m.names.pascalName ++ ", update" ++ m.names.pascalName ++ newTypeImport m fields ++
      " \x7d from \"../../actions\";",
    ""] ++
    recordLines m ("Edit" ++ m.names.pascalName ++ "Page") ++ [
    "  async function action(formData: FormData) \x7b",
    "    \"use server\";",
    ""]
  callee := "update" ++ m.names.pascalName
  arguments := m.idExpression ++ ", "
  redirect := "    redirect(`/" ++ m.names.kebabPlural ++ "/$\x7bid\x7d`);"
  title := "      <h1>Edit " ++ humanize m.names.pascalName ++ "</h1>"
  button := "        <button type=\"submit\">Update " ++ humanize m.names.pascalName ++ "</button>"
  link := "      <Link href=\x7b`/" ++ m.names.kebabPlural ++ "/$\x7bid\x7d`\x7d>Back</Link>"

theorem editPage_eq (m : Model) (fields : List Field) : editPage m fields =
    (editShape m fields).page (fields.map (Submission.entryLine m.names.pascalName))
      (fields.flatMap (fieldLines (some m.record))) := by
  have hcall : (editShape m fields).callLine =
      s!"    await update{m.names.pascalName}({m.idExpression}, \x7b" := by
    refine String.toList_inj.mp ?_
    simp [Shape.callLine, editShape, toString, String.toList_append]
  have hentries : fields.map (Submission.entryLine m.names.pascalName) =
      fields.map fun field => s!"      {field.name}: {field.formValue m.names.pascalName}," := rfl
  rw [Shape.page, hcall, hentries]
  simp [editPage, editShape, Shape.between, Shape.foot, valueLines, toString]

theorem not_mem_idExpression (m : Model) : '<' ∉ m.idExpression.toList ∧ '{' ∉ m.idExpression.toList := by
  unfold Model.idExpression
  split <;> decide

theorem quiet_recordLines (h : Legible m) {page : String} (hpage : '<' ∉ page.toList) :
    ∀ line ∈ recordLines m page, Markup.Quiet line.toList := by
  have hrecord : '<' ∉ m.record.toList := fun hmem => absurd (h.record _ hmem) (by decide)
  have hid := (not_mem_idExpression m).1
  have hread : '<' ∉ ("  const " ++ m.record ++ " = await get" ++ m.names.pascalName ++ "(" ++ m.idExpression ++
      ");").toList := by
    simp [String.toList_append, hrecord, hid, h.not_mem (c := '<') (by decide)]
  simp only [recordLines, List.forall_mem_cons, List.not_mem_nil, false_implies, implies_true, and_true]
  refine ⟨fun _ _ => by cbv, ?_, ?_, ?_, Markup.quiet_of_not_mem hread, ?_, ?_, ?_, ?_, ?_⟩
  · exact Markup.quiet_of_not_mem (by decide)
  · exact quiet_around (fun _ _ => by cbv) (Markup.quiet_of_not_mem hpage) (fun _ _ => by cbv)
  · exact Markup.quiet_of_not_mem (by decide)
  · exact Markup.quiet_of_not_mem (by decide)
  · exact quiet_around (fun _ _ => by cbv) (Markup.quiet_of_not_mem hrecord) (fun _ _ => by cbv)
  · exact Markup.quiet_of_not_mem (by decide)
  · exact Markup.quiet_of_not_mem (by decide)
  · exact Markup.quiet_of_not_mem (by decide)

/-- Reading the record calls other functions than the one that updates it. -/
theorem passes_recordLines (h : Legible m) {page : String}
    (hpage : ∀ c ∈ page.toList, Submission.isWordChar c = true)
    {callee : List Char} (hcallee : callee.head? = some 'u') (hne : page.toList ≠ callee) :
    ∀ line ∈ recordLines m page, Submission.Passes callee (line.toList ++ ['\n']) := by
  have hother : ∀ {w : List Char}, w.head? ≠ some 'u' → w ≠ callee := fun hw he => hw (he ▸ hcallee)
  have hrecord : '(' ∉ m.record.toList := fun hmem => absurd (h.record _ hmem) (by decide)
  have hfunction : Submission.Passes callee
      (("export default async function " ++ page ++ "(\x7b params \x7d: Props) \x7b").toList ++ ['\n']) := by
    have htext : ("export default async function " ++ page ++ "(\x7b params \x7d: Props) \x7b").toList =
        "export default async function".toList ++ ' ' ::
          (page.toList ++ '(' :: "\x7b params \x7d: Props) \x7b".toList) := by
      simp [String.toList_append]
    rw [htext]
    exact Submission.passes_line (by decide) hpage hne (Submission.passes_plain (by decide))
  have hid : Submission.Passes callee ((m.idExpression ++ ");").toList ++ ['\n']) := by
    unfold Model.idExpression
    split
    · exact Submission.passes_plain (by decide)
    · have hnumber : Submission.Passes callee ("Number".toList ++ ['(']) :=
        Submission.passes_call (List.all_eq_true.mp (by decide)) (hother (by decide))
      have hrest : Submission.Passes callee ("id));".toList ++ ['\n']) := Submission.passes_plain (by decide)
      exact hnumber.append hrest
  have hread : Submission.Passes callee (("  const " ++ m.record ++ " = await get" ++ m.names.pascalName ++ "(" ++
      m.idExpression ++ ");").toList ++ ['\n']) := by
    have htext : ("  const " ++ m.record ++ " = await get" ++ m.names.pascalName ++ "(" ++ m.idExpression ++
        ");").toList = ("  const " ++ m.record ++ " = await").toList ++ ' ' ::
          (("get" ++ m.names.pascalName).toList ++ '(' :: (m.idExpression ++ ");").toList) := by
      simp [String.toList_append]
    have hfront : '(' ∉ ("  const " ++ m.record ++ " = await").toList := by
      simp [String.toList_append, hrecord]
    have hword : ∀ c ∈ ("get" ++ m.names.pascalName).toList, Submission.isWordChar c = true :=
      h.functionChars (by decide)
    rw [htext]
    exact Submission.passes_line hfront hword (hother (by simp [String.toList_append])) hid
  have hmissing : Submission.Passes callee (("  if (!" ++ m.record ++ ") \x7b").toList ++ ['\n']) := by
    have htext : ("  if (!" ++ m.record ++ ") \x7b").toList =
        "  if".toList ++ ' ' :: ([] ++ '(' :: ("!" ++ m.record ++ ") \x7b").toList) := by
      simp [String.toList_append]
    have hback : '(' ∉ ("!" ++ m.record ++ ") \x7b").toList := by
      simp [String.toList_append, hrecord]
    rw [htext]
    exact Submission.passes_line (by decide) (by simp) (hother (by simp)) (Submission.passes_plain hback)
  have hnotFound : Submission.Passes callee ("    notFound();".toList ++ ['\n']) := by
    have htext : "    notFound();".toList = "   ".toList ++ ' ' :: ("notFound".toList ++ '(' :: ");".toList) := by
      decide
    rw [htext]
    exact Submission.passes_line (by decide) (List.all_eq_true.mp (by decide)) (hother (by decide))
      (Submission.passes_plain (by decide))
  simp only [recordLines, List.forall_mem_cons, List.not_mem_nil, false_implies, implies_true, and_true]
  refine ⟨?_, ?_, hfunction, ?_, hread, ?_, hmissing, hnotFound, ?_, ?_⟩ <;>
    exact Submission.passes_plain (by decide)

theorem clean_editShape (h : Legible m) (fields : List Field) : (editShape m fields).Clean where
  callee := h.functionChars (show "update".toList.all Submission.isWordChar = true by decide)
  passes := by
    have hcallee : (editShape m fields).callee.toList.head? = some 'u' := by
      simp [editShape, String.toList_append]
    generalize (editShape m fields).callee.toList = callee at hcallee
    have hpage : ("Edit" ++ m.names.pascalName ++ "Page").toList ≠ callee := by
      rintro rfl
      simp [String.toList_append] at hcallee
    have himport : Submission.Passes callee (("import \x7b get" ++ m.names.pascalName ++ ", update" ++
        m.names.pascalName ++ newTypeImport m fields ++ " \x7d from \"../../actions\";").toList ++ ['\n']) := by
      refine Submission.passes_plain (h.not_mem_line fields (by decide) (by decide) ?_ (by decide))
      simp [String.toList_append, h.not_mem (c := '(') (by decide)]
    refine List.forall_mem_append.mpr ⟨List.forall_mem_append.mpr
      ⟨?_, passes_recordLines h (h.pageChars (by decide)) hcallee hpage⟩, ?_⟩
    · simp only [List.forall_mem_cons, List.not_mem_nil, false_implies, implies_true, and_true]
      exact ⟨Submission.passes_plain (by decide), Submission.passes_plain (by decide), himport,
        Submission.passes_plain (by decide)⟩
    · simp only [List.forall_mem_cons, List.not_mem_nil, false_implies, implies_true, and_true]
      exact ⟨passes_action (by rw [hcallee]; decide), Submission.passes_plain (by decide),
        Submission.passes_plain (by decide)⟩
  arguments := by
    have hid := (not_mem_idExpression m).2
    simp [editShape, String.toList_append, hid]
  head := by
    have hone : '<' ∉ m.names.pascalName.toList := h.not_mem (by decide)
    have hid := (not_mem_idExpression m).1
    have hcall : '<' ∉ (editShape m fields).callLine.toList := by
      simp [Shape.callLine, editShape, String.toList_append, hone, hid]
    have himport : '<' ∉ ("import \x7b get" ++ m.names.pascalName ++ ", update" ++ m.names.pascalName ++
        newTypeImport m fields ++ " \x7d from \"../../actions\";").toList := by
      refine h.not_mem_line fields (by decide) (by decide) ?_ (by decide)
      simp [String.toList_append, hone]
    have hpage : '<' ∉ ("Edit" ++ m.names.pascalName ++ "Page").toList := by
      simp [String.toList_append, hone]
    refine List.forall_mem_append.mpr ⟨List.forall_mem_append.mpr ⟨List.forall_mem_append.mpr
      ⟨?_, quiet_recordLines h hpage⟩, ?_⟩, by simpa using Markup.quiet_of_not_mem hcall⟩
    · simp only [List.forall_mem_cons, List.not_mem_nil, false_implies, implies_true, and_true]
      exact ⟨Markup.quiet_of_not_mem (by decide), Markup.quiet_of_not_mem (by decide),
        Markup.quiet_of_not_mem himport, Markup.quiet_of_not_mem (by decide)⟩
    · simp only [List.forall_mem_cons, List.not_mem_nil, false_implies, implies_true, and_true]
      exact ⟨Markup.quiet_of_not_mem (by decide), Markup.quiet_of_not_mem (by decide),
        Markup.quiet_of_not_mem (by decide)⟩
  between := by
    refine Shape.quiet_between ?_ ?_
    · exact quiet_around (fun _ _ => by cbv) h.quiet_kebab (fun _ _ => by cbv)
    · exact quiet_around (fun _ _ => by cbv) (Markup.quiet_humanize h.nameChars) (fun _ _ => by cbv)
  foot := by
    refine Shape.quiet_foot ?_ ?_
    · exact quiet_around (fun _ _ => by cbv) (Markup.quiet_humanize h.nameChars) (fun _ _ => by cbv)
    · exact quiet_around (fun _ _ => by cbv) h.quiet_kebab (fun _ _ => by cbv)

/-! ## Forms and what they submit -/

theorem newPage_agrees (h : Legible m) (hfields : ∀ field ∈ fields, Field.Accepted field) :
    FormAgrees fields ("create" ++ m.names.pascalName) (newPage m fields) := by
  rw [newPage_eq]
  exact (clean_newShape h fields).agrees hfields h.one nofun

theorem editPage_agrees (h : Legible m) (hfields : ∀ field ∈ fields, Field.Accepted field) :
    FormAgrees fields ("update" ++ m.names.pascalName) (editPage m fields) := by
  have hrecord : ∀ r ∈ some m.record, ∀ c ∈ r.toList, isNameChar c = true := by
    rintro r hr c hc
    cases hr
    exact isNameChar_of_isAlphanum (h.record c hc)
  rw [editPage_eq]
  exact (clean_editShape h fields).agrees hfields h.one hrecord

/-- In both pages with a form, the controls, the entries that the form passes on and the names that these
read are those of the fields, whatever the fields are and whatever values their enums have. -/
theorem forms_agree {name : String} (hname : validateModelName name = .ok ()) {definitions : List String}
    {fields : List Field} (hfields : Field.parseAll definitions = .ok fields) (project : Project)
    (options : TableOptions) :
    let m : Model := .of project (.of name) options
    FormAgrees fields ("create" ++ m.names.pascalName) (newPage m fields) ∧
      FormAgrees fields ("update" ++ m.names.pascalName) (editPage m fields) :=
  have hlegible := legible hname project options
  have haccepted := Field.parseAll_accepted hfields
  ⟨newPage_agrees hlegible haccepted, editPage_agrees hlegible haccepted⟩

/-- Values that look like a property or a tag give no control and no entry. -/
theorem forms_agree_hostile :
    let definitions := ["title:string", "status?:enum:a\" name=\"b,<input name='c'>,formData.get(\"d\")"]
    let fields : List Field := [{ name := "title" }, {
      name := "status", type := .enum, nullable := true
      enumValues := some ["a\" name=\"b", "<input name='c'>", "formData.get(\"d\")"] }]
    let project : Project := { root := [], layout := {}, dialect := .sqlite }
    let m : Model := .of project (.of "Post") {}
    (validateModelName "Post" = .ok () ∧ Field.parseAll definitions = .ok fields) ∧
      FormAgrees fields ("create" ++ m.names.pascalName) (newPage m fields) ∧
      FormAgrees fields ("update" ++ m.names.pascalName) (editPage m fields) ∧
      Markup.controls (newPage m fields) = [["title"], ["status"]] := by
  intro definitions fields project m
  have hname : validateModelName "Post" = .ok () := rfl
  have hfields : Field.parseAll definitions = .ok fields := by decide +kernel
  have hagree := forms_agree hname hfields project {}
  exact ⟨⟨hname, hfields⟩, hagree.1, hagree.2, hagree.1.controls⟩

end SchemaScaffold.Generated
