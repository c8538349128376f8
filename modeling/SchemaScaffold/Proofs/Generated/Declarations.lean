import SchemaScaffold.Generated.Modules
import SchemaScaffold.Proofs.Field.Accepted

/-!
The names that a generated module declares. A module is read line by line: a line is an import, a
type, the head of a function, a constant or another form that declares names, or it is plain.
Spelling the lines of a reading gives the module's text back, and no line that is taken for plain
opens a declaration, so a reading misses none of the names.
-/

namespace SchemaScaffold.Generated

open Naming

/-- What a declaration puts its value into: one name, or a name for each property it takes out. -/
inductive Binder
  | name (x : String)
  | properties (xs : List String)

def Binder.names : Binder → List String
  | .name x => [x]
  | .properties xs => xs

def Binder.text : Binder → String
  | .name x => x
  | .properties xs => "\x7b " ++ ", ".intercalate xs ++ " \x7d"

structure Parameter where
  binder : Binder
  type : String

def Parameter.text (p : Parameter) : String := p.binder.text ++ ": " ++ p.type

/-- A line of a module. -/
inductive Line
  | importDefault (x path : String)
  | imports (values types : List String) (path : String)
  | type (lead x definition : String)
  | function (lead x : String) (parameters : List Parameter)
  /-- The head of a function whose parameters follow, each on a line of its own. -/
  | functionOpen (lead x : String)
  | parameter (p : Parameter) (ending : String)
  | constant (indent : String) (binder : Binder) (value : String)
  | caught (x : String)
  /-- The head of a function that is applied to every element of a list. -/
  | each (list x : String)
  | plain (text : String)

namespace Line

/-- The names that a line declares. -/
def names : Line → List String
  | importDefault x _ => [x]
  | imports values types _ => values ++ types
  | type _ x _ => [x]
  | function _ x parameters => x :: parameters.flatMap (·.binder.names)
  | functionOpen _ x => [x]
  | parameter p _ => p.binder.names
  | constant _ binder _ => binder.names
  | caught x => [x]
  | each _ x => [x]
  | plain _ => []

def text : Line → String
  | importDefault x path => "import " ++ x ++ " from \"" ++ path ++ "\";"
  | imports values types path =>
    "import \x7b " ++ ", ".intercalate (values ++ types.map ("type " ++ ·)) ++ " \x7d from \"" ++
      path ++ "\";"
  | type lead x definition => lead ++ "type " ++ x ++ " = " ++ definition ++ ";"
  | function lead x parameters =>
    lead ++ "function " ++ x ++ "(" ++ ", ".intercalate (parameters.map (·.text)) ++ ") \x7b"
  | functionOpen lead x => lead ++ "function " ++ x ++ "("
  | parameter p ending => "  " ++ p.text ++ ending
  | constant indent binder value => indent ++ "const " ++ binder.text ++ " = " ++ value
  | caught x => "  \x7d catch (" ++ x ++ ") \x7b"
  | each list x => "            \x7b" ++ list ++ ".map((" ++ x ++ ") => ("
  | plain text => text

/-- What the line of a declaration opens with, behind its indentation. -/
def openings : List String :=
  ["import ", "export ", "type ", "async function ", "function ", "const ", "\x7d catch "]

/-- A text that opens no declaration. -/
def isPlain (text : String) : Bool :=
  openings.all fun opening => !opening.toList.isPrefixOf (text.toList.dropWhile (· == ' '))

/-- A line is taken for plain only if it opens no declaration. -/
def honest : Line → Bool
  | plain text => isPlain text
  | _ => true

end Line

/-- The text of lines. -/
def spell (lines : List Line) : String := Text.unlines (lines.map Line.text)

/-- The names that lines declare, in their order. -/
def declared (lines : List Line) : List String := lines.flatMap Line.names

def plains (texts : List String) : List Line := texts.map .plain

/-! ## Server actions -/

def createdLines (m : Model) : List Line :=
  let t := m.table
  if m.returning then
    [.constant "  " (.name "result") s!"await db.insert({t}).values(data).returning();"]
  else
    [.constant "  " (.name "inserted") s!"await db.insert({t}).values(data).$returningId();",
      .constant "  " (.name "result") "await db"] ++
    plains ["    .select()",
      s!"    .from({t})",
      s!"    .where(eq({t}.id, inserted[0].id))",
      "    .limit(1);"]

def updatedLines (m : Model) : List Line :=
  let t := m.table
  let data := m.updateFrom "data"
  if m.returning then
    [.constant "  " (.name "result") "await db"] ++
    plains [s!"    .update({t})",
      s!"    .set({data})",
      s!"    .where(eq({t}.id, id))",
      "    .returning();"]
  else
    plains ["  await db",
      s!"    .update({t})",
      s!"    .set({data})",
      s!"    .where(eq({t}.id, id));",
      ""] ++
    [.constant "  " (.name "result") "await db"] ++
    plains ["    .select()",
      s!"    .from({t})",
      s!"    .where(eq({t}.id, id))",
      "    .limit(1);"]

def actionLines (m : Model) : List Line :=
  let t := m.table
  let one := m.names.pascalName
  let many := m.names.pascalPlural
  let kebab := m.names.kebabPlural
  let id : Parameter := ⟨.name "id", m.idType⟩
  let async := "export async "
  plains ["\"use server\";", ""] ++
  [.imports ["db"] [] m.dbImport,
    .imports [t] [] m.schemaImport,
    .imports ["eq", "desc"] [] "drizzle-orm",
    .imports ["revalidatePath"] [] "next/cache",
    .plain "",
    .type "export " one s!"typeof {t}.$inferSelect",
    .type "export " s!"New{one}" s!"typeof {t}.$inferInsert",
    .plain "",
    .function async s!"get{many}" []] ++
  plains [s!"  return db.select().from({t}).orderBy(desc({t}.{m.orderColumn}));",
    "\x7d",
    ""] ++
  [.function async s!"get{one}" [id],
    .constant "  " (.name "result") "await db"] ++
  plains ["    .select()",
    s!"    .from({t})",
    s!"    .where(eq({t}.id, id))",
    "    .limit(1);",
    "",
    "  return result[0] ?? null;",
    "\x7d",
    ""] ++
  [.function async s!"create{one}" [⟨.name "data", s!"Omit<New{one}, {m.omitted}>"⟩]] ++
  createdLines m ++
  plains ["",
    s!"  revalidatePath(\"/{kebab}\");",
    "",
    "  return result[0];",
    "\x7d",
    ""] ++
  [.functionOpen async s!"update{one}",
    .parameter id ",",
    .parameter ⟨.name "data", s!"Partial<Omit<New{one}, {m.omitted}>>"⟩ "",
    .plain ") \x7b"] ++
  updatedLines m ++
  plains ["",
    s!"  revalidatePath(\"/{kebab}\");",
    "",
    "  return result[0];",
    "\x7d",
    ""] ++
  [.function async s!"delete{one}" [id]] ++
  plains [s!"  await db.delete({t}).where(eq({t}.id, id));",
    "",
    s!"  revalidatePath(\"/{kebab}\");",
    "\x7d"]

/-! ## Pages -/

def indexLines (m : Model) (fields : List Field) : List Line :=
  let one := m.names.pascalName
  let many := m.names.pascalPlural
  let kebab := m.names.kebabPlural
  let list := m.table
  let item := m.record
  let absent := String.ofList (Text.lower (humanize many).toList)
  [.importDefault "Link" "next/link",
    .imports [s!"get{many}", s!"delete{one}"] [] "./actions",
    .plain "",
    .function "export default async " s!"{many}Page" [],
    .constant "  " (.name list) s!"await get{many}();"] ++
  plains (["",
    "  return (",
    "    <div>",
    "      <div>",
    s!"        <h1>{humanize many}</h1>",
    s!"        <Link href=\"/{kebab}/new\">New {humanize one}</Link>",
    "      </div>",
    "",
    s!"      \x7b{list}.length === 0 ? (",
    s!"        <p>No {absent} yet.</p>",
    "      ) : (",
    "        <table>",
    "          <thead>",
    "            <tr>"] ++
  fields.map (fun f => s!"              <th>{humanize f.name}</th>") ++
  ["              <th></th>",
    "            </tr>",
    "          </thead>",
    "          <tbody>"]) ++
  [.each list item] ++
  plains ([s!"              <tr key=\x7b{item}.id\x7d>"] ++
  fields.map (fun f => s!"                <td>\x7b {f.displayValue item} \x7d</td>") ++
  ["                <td>",
    s!"                  <Link href=\x7b`/{kebab}/$\x7b{item}.id\x7d`\x7d>Show</Link>",
    s!"                  <Link href=\x7b`/{kebab}/$\x7b{item}.id\x7d/edit`\x7d>Edit</Link>",
    "                  <form",
    "                    action=\x7basync () => \x7b",
    "                      \"use server\";",
    s!"                      await delete{one}({item}.id);",
    "                    \x7d\x7d",
    "                  >",
    "                    <button type=\"submit\">Delete</button>",
    "                  </form>",
    "                </td>",
    "              </tr>",
    "            ))\x7d",
    "          </tbody>",
    "        </table>",
    "      )\x7d",
    "    </div>",
    "  );",
    "\x7d"])

/-- The types that a form module imports beside its action. -/
def newTypes (m : Model) (fields : List Field) : List String :=
  if fields.any Field.isEnum then [s!"New{m.names.pascalName}"] else []

def newLines (m : Model) (fields : List Field) : List Line :=
  let one := m.names.pascalName
  let kebab := m.names.kebabPlural
  [.importDefault "Link" "next/link",
    .imports ["redirect"] [] "next/navigation",
    .imports [s!"create{one}"] (newTypes m fields) "../actions",
    .plain "",
    .function "export default " s!"New{one}Page" [],
    .function "  async " "action" [⟨.name "formData", "FormData"⟩]] ++
  plains (["    \"use server\";",
    "",
    s!"    await create{one}(\x7b"] ++
  valueLines m fields ++
  ["    \x7d);",
    "",
    s!"    redirect(\"/{kebab}\");",
    "  \x7d",
    "",
    "  return (",
    "    <div>",
    s!"      <h1>New {humanize one}</h1>",
    "",
    "      <form action=\x7baction\x7d>"] ++
  fields.flatMap (fieldLines none) ++
  [s!"        <button type=\"submit\">Create {humanize one}</button>",
    "      </form>",
    "",
    s!"      <Link href=\"/{kebab}\">Back</Link>",
    "    </div>",
    "  );",
    "\x7d"])

def foundRecordLines (m : Model) (page : String) : List Line :=
  let item := m.record
  [.type "" "Props" "\x7b params: Promise<\x7b id: string \x7d> \x7d",
    .plain "",
    .function "export default async " page [⟨.properties ["params"], "Props"⟩],
    .constant "  " (.properties ["id"]) "await params;",
    .constant "  " (.name item) s!"await get{m.names.pascalName}({m.idExpression});"] ++
  plains ["",
    s!"  if (!{item}) \x7b",
    "    notFound();",
    "  \x7d",
    ""]

def showLines (m : Model) (fields : List Field) : List Line :=
  let one := m.names.pascalName
  let kebab := m.names.kebabPlural
  let item := m.record
  [.importDefault "Link" "next/link",
    .imports ["notFound"] [] "next/navigation",
    .imports [s!"get{one}"] [] "../actions",
    .plain ""] ++
  foundRecordLines m s!"{one}Page" ++
  plains (["  return (",
    "    <div>",
    s!"      <h1>{humanize one}</h1>",
    "",
    "      <dl>"] ++
  fields.flatMap (fun f =>
    [s!"        <dt>{humanize f.name}</dt>",
      s!"        <dd>\x7b {f.displayValue item} \x7d</dd>"]) ++
  ["      </dl>",
    "",
    s!"      <Link href=\x7b`/{kebab}/$\x7b{item}.id\x7d/edit`\x7d>Edit</Link>",
    s!"      <Link href=\"/{kebab}\">Back</Link>",
    "    </div>",
    "  );",
    "\x7d"])

def editLines (m : Model) (fields : List Field) : List Line :=
  let one := m.names.pascalName
  let kebab := m.names.kebabPlural
  [.importDefault "Link" "next/link",
    .imports ["notFound", "redirect"] [] "next/navigation",
    .imports [s!"get{one}", s!"update{one}"] (newTypes m fields) "../../actions",
    .plain ""] ++
  foundRecordLines m s!"Edit{one}Page" ++
  [.function "  async " "action" [⟨.name "formData", "FormData"⟩]] ++
  plains (["    \"use server\";",
    "",
    s!"    await update{one}({m.idExpression}, \x7b"] ++
  valueLines m fields ++
  ["    \x7d);",
    "",
    s!"    redirect(`/{kebab}/$\x7bid\x7d`);",
    "  \x7d",
    "",
    "  return (",
    "    <div>",
    s!"      <h1>Edit {humanize one}</h1>",
    "",
    "      <form action=\x7baction\x7d>"] ++
  fields.flatMap (fieldLines (some m.record)) ++
  [s!"        <button type=\"submit\">Update {humanize one}</button>",
    "      </form>",
    "",
    s!"      <Link href=\x7b`/{kebab}/$\x7bid\x7d`\x7d>Back</Link>",
    "    </div>",
    "  );",
    "\x7d"])

/-! ## API routes -/

def failedLines (handler path failure : String) (checksBody : Bool) : List Line :=
  [.caught "error"] ++ plains (failureLines handler path failure checksBody).tail

def collectionLines (m : Model) : List Line :=
  let t := m.table
  let kebab := m.names.kebabPlural
  [.imports ["db"] [] m.dbImport,
    .imports [t] [] m.schemaImport,
    .imports (if m.returning then ["desc"] else ["desc", "eq"]) [] "drizzle-orm",
    .imports ["NextResponse"] [] "next/server",
    .plain "",
    .function "export async " "GET" [],
    .plain "  try \x7b",
    .constant "    " (.name "data") "await db"] ++
  plains ["      .select()",
    s!"      .from({t})",
    s!"      .orderBy(desc({t}.{m.orderColumn}));",
    "",
    "    return NextResponse.json(data);"] ++
  failedLines "GET" kebab "Failed to fetch records" false ++
  [.plain "",
    .function "export async " "POST" [⟨.name "request", "Request"⟩],
    .plain "  try \x7b",
    .constant "    " (.name "body") "await request.json();"] ++
  (if m.returning then
    [.constant "    " (.name "result") s!"await db.insert({t}).values(body).returning();"]
  else
    [.constant "    " (.name "inserted") s!"await db.insert({t}).values(body).$returningId();",
      .constant "    " (.name "result") "await db"] ++
    plains ["      .select()",
      s!"      .from({t})",
      s!"      .where(eq({t}.id, inserted[0].id))",
      "      .limit(1);"]) ++
  plains ["",
    "    return NextResponse.json(result[0], \x7b status: 201 \x7d);"] ++
  failedLines "POST" kebab "Failed to create record" true

def handlerLines (m : Model) (name : String) : List Line :=
  [.function "export async " name [⟨.name "request", "Request"⟩, ⟨.properties ["params"], "Params"⟩],
    .plain "  try \x7b",
    .constant "    " (.properties ["id"]) "await params;"] ++
  (if m.options.uuid then []
    else [.constant "    " (.name "numericId") "Number(id);"]) ++
  plains ((readIdLines m).drop (if m.options.uuid then 1 else 2))

def selectedLines (m : Model) : List Line :=
  let t := m.table
  let id := if m.options.uuid then "id" else "numericId"
  [.constant "    " (.name "result") "await db"] ++
  plains ["      .select()",
    s!"      .from({t})",
    s!"      .where(eq({t}.id, {id}))",
    "      .limit(1);"]

def memberLines (m : Model) : List Line :=
  let t := m.table
  let path := s!"{m.names.kebabPlural}/[id]"
  let id := if m.options.uuid then "id" else "numericId"
  let data := m.updateFrom "body"
  [.imports ["db"] [] m.dbImport,
    .imports [t] [] m.schemaImport,
    .imports ["eq"] [] "drizzle-orm",
    .imports ["NextResponse"] [] "next/server",
    .plain "",
    .type "" "Params" "\x7b params: Promise<\x7b id: string \x7d> \x7d",
    .plain ""] ++
  handlerLines m "GET" ++ selectedLines m ++ plains foundLines ++
  failedLines "GET" path "Failed to fetch record" false ++
  [.plain ""] ++
  handlerLines m "PATCH" ++
  [.constant "    " (.name "body") "await request.json();"] ++
  (if m.returning then
    [.constant "    " (.name "result") "await db"] ++
    plains [s!"      .update({t})",
      s!"      .set({data})",
      s!"      .where(eq({t}.id, {id}))",
      "      .returning();"]
  else
    plains ["    await db",
      s!"      .update({t})",
      s!"      .set({data})",
      s!"      .where(eq({t}.id, {id}));",
      ""] ++ selectedLines m) ++
  plains foundLines ++
  failedLines "PATCH" path "Failed to update record" true ++
  [.plain ""] ++
  handlerLines m "DELETE" ++
  plains [s!"    await db.delete({t}).where(eq({t}.id, {id}));",
    "",
    "    return new NextResponse(null, \x7b status: 204 \x7d);"] ++
  failedLines "DELETE" path "Failed to delete record" false

/-! ## Readings -/

section Spelling

attribute [local simp] Line.text Parameter.text Binder.text

@[simp]
theorem map_text_plains (texts : List String) : (plains texts).map Line.text = texts := by
  simp [plains, Function.comp_def]

theorem spell_actions (m : Model) : spell (actionLines m) = actions m := by
  unfold spell actions
  refine congrArg Text.unlines ?_
  cases hreturning : m.returning
  · simp [actionLines, createdLines, createStatements, updatedLines, updateStatements, hreturning,
      ← String.toList_inj, toString]
  · simp [actionLines, createdLines, createStatements, updatedLines, updateStatements, hreturning,
      ← String.toList_inj, toString]

theorem spell_indexPage (m : Model) (fields : List Field) :
    spell (indexLines m fields) = indexPage m fields := by
  unfold spell indexPage
  refine congrArg Text.unlines ?_
  simp [indexLines, ← String.toList_inj, toString, Model.table]

theorem spell_newPage (m : Model) (fields : List Field) :
    spell (newLines m fields) = newPage m fields := by
  unfold spell newPage
  refine congrArg Text.unlines ?_
  cases henum : fields.any Field.isEnum
  · simp [newLines, newTypes, newTypeImport, henum, ← String.toList_inj, toString]
  · simp [newLines, newTypes, newTypeImport, henum, ← String.toList_inj, toString]

theorem text_foundRecordLines (m : Model) (page : String) :
    (foundRecordLines m page).map Line.text = recordLines m page := by
  simp [foundRecordLines, recordLines, ← String.toList_inj, toString]

theorem spell_showPage (m : Model) (fields : List Field) :
    spell (showLines m fields) = showPage m fields := by
  unfold spell showPage
  refine congrArg Text.unlines ?_
  simp [showLines, text_foundRecordLines, ← String.toList_inj, toString]

theorem spell_editPage (m : Model) (fields : List Field) :
    spell (editLines m fields) = editPage m fields := by
  unfold spell editPage
  refine congrArg Text.unlines ?_
  cases henum : fields.any Field.isEnum
  · simp [editLines, newTypes, newTypeImport, henum, text_foundRecordLines, ← String.toList_inj,
      toString]
  · simp [editLines, newTypes, newTypeImport, henum, text_foundRecordLines, ← String.toList_inj,
      toString]

theorem text_failedLines (handler path failure : String) (checksBody : Bool) :
    (failedLines handler path failure checksBody).map Line.text =
      failureLines handler path failure checksBody := by
  simp [failedLines, failureLines]

theorem text_handlerLines (m : Model) (name : String) :
    (handlerLines m name).map Line.text =
      [s!"export async function {name}(request: Request, \x7b params \x7d: Params) \x7b",
        "  try \x7b"] ++ readIdLines m := by
  cases huuid : m.options.uuid
  · simp [handlerLines, readIdLines, huuid, ← String.toList_inj, toString]
  · simp [handlerLines, readIdLines, huuid, ← String.toList_inj, toString]

theorem spell_collectionRoute (m : Model) : spell (collectionLines m) = collectionRoute m := by
  unfold spell collectionRoute
  refine congrArg Text.unlines ?_
  cases hreturning : m.returning
  · simp [collectionLines, hreturning, text_failedLines, ← String.toList_inj, toString]
  · simp [collectionLines, hreturning, text_failedLines, ← String.toList_inj, toString]

theorem spell_memberRoute (m : Model) : spell (memberLines m) = memberRoute m := by
  unfold spell memberRoute
  refine congrArg Text.unlines ?_
  cases hreturning : m.returning
  · simp [memberLines, selectedLines, hreturning, text_failedLines, text_handlerLines, toString]
  · simp [memberLines, selectedLines, hreturning, text_failedLines, text_handlerLines, toString]

end Spelling

/-- The lines of a model's module. -/
def Template.lines (m : Model) (fields : List Field) : Template → List Line
  | .actions => actionLines m
  | .indexPage => indexLines m fields
  | .newPage => newLines m fields
  | .showPage => showLines m fields
  | .editPage => editLines m fields
  | .collectionRoute => collectionLines m
  | .memberRoute => memberLines m

/-- All modules that are generated for a model. -/
def modules (project : Project) (names : ModelNames) (options : TableOptions) (fields : List Field) :
    List Module :=
  actionModules project names options ++ pageModules project names options fields ++
    routeModules project names options

/-- Every generated module is spelled by its lines. -/
theorem spell_modules (project : Project) (names : ModelNames) (options : TableOptions)
    (fields : List Field) : ∀ generated ∈ modules project names options fields,
      spell (generated.template.lines (.of project names options) fields) = generated.content := by
  simp [modules, actionModules, pageModules, routeModules, Template.lines, spell_actions,
    spell_indexPage, spell_newPage, spell_showPage, spell_editPage, spell_collectionRoute,
    spell_memberRoute]

end SchemaScaffold.Generated
