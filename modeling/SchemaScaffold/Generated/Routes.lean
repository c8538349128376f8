import SchemaScaffold.Generated.Basic

/-! The API routes of a model: one module for the collection, and one for a single member. -/

namespace SchemaScaffold.Generated

/-- A JSON answer that reports an error. -/
def errorAnswer (indent text status : String) : List String :=
  [s!"{indent}return NextResponse.json(",
    s!"{indent}  \x7b error: \"{text}\" \x7d,",
    s!"{indent}  \x7b status: {status} \x7d",
    s!"{indent});"]

/-- The end of a handler: a failure is logged and answered. -/
def failureLines (handler path failure : String) (checksBody : Bool) : List String :=
  ["  \x7d catch (error) \x7b",
    s!"    console.error(\"{handler} /api/{path} failed:\", error);"] ++
    (if checksBody then
      ["    if (error instanceof SyntaxError) \x7b"] ++
        errorAnswer "      " "Invalid JSON in request body" "400" ++ ["    \x7d"]
    else []) ++
    errorAnswer "    " failure "500" ++
    ["  \x7d", "\x7d"]

/-- The module for the collection: list and create. -/
def collectionRoute (m : Model) : String :=
  let t := m.table
  let kebab := m.names.kebabPlural
  let operators := if m.returning then "desc" else "desc, eq"
  Text.unlines (
    [s!"import \x7b db \x7d from \"{m.dbImport}\";",
      s!"import \x7b {t} \x7d from \"{m.schemaImport}\";",
      s!"import \x7b {operators} \x7d from \"drizzle-orm\";",
      "import \x7b NextResponse \x7d from \"next/server\";",
      "",
      "export async function GET() \x7b",
      "  try \x7b",
      "    const data = await db",
      "      .select()",
      s!"      .from({t})",
      s!"      .orderBy(desc({t}.{m.orderColumn}));",
      "",
      "    return NextResponse.json(data);"] ++
    failureLines "GET" kebab "Failed to fetch records" false ++
    ["",
      "export async function POST(request: Request) \x7b",
      "  try \x7b",
      "    const body = await request.json();"] ++
    (if m.returning then
      [s!"    const result = await db.insert({t}).values(body).returning();"]
    else
      [s!"    const inserted = await db.insert({t}).values(body).$returningId();",
        "    const result = await db",
        "      .select()",
        s!"      .from({t})",
        s!"      .where(eq({t}.id, inserted[0].id))",
        "      .limit(1);"]) ++
    ["",
      "    return NextResponse.json(result[0], \x7b status: 201 \x7d);"] ++
    failureLines "POST" kebab "Failed to create record" true)

/-- Reads the identifier out of the route, with a blank line after it. -/
def readIdLines (m : Model) : List String :=
  ["    const \x7b id \x7d = await params;"] ++
    (if m.options.uuid then []
    else
      ["    const numericId = Number(id);",
        "    if (isNaN(numericId)) \x7b"] ++
        errorAnswer "      " "Invalid ID format" "400" ++ ["    \x7d"]) ++
    [""]

/-- Answers with the row that was found, or that there is none. -/
def foundLines : List String :=
  ["",
    "    if (!result[0]) \x7b"] ++
    errorAnswer "      " "Record not found" "404" ++
    ["    \x7d",
      "",
      "    return NextResponse.json(result[0]);"]

/-- The module for a single member: get, update and delete. -/
def memberRoute (m : Model) : String :=
  let t := m.table
  let path := s!"{m.names.kebabPlural}/[id]"
  let id := if m.options.uuid then "id" else "numericId"
  let data := m.updateFrom "body"
  let set := s!"      .set({data})"
  let handler (name : String) : List String :=
    [s!"export async function {name}(request: Request, \x7b params \x7d: Params) \x7b",
      "  try \x7b"] ++ readIdLines m
  let select : List String :=
    ["    const result = await db",
      "      .select()",
      s!"      .from({t})",
      s!"      .where(eq({t}.id, {id}))",
      "      .limit(1);"]
  Text.unlines (
    [s!"import \x7b db \x7d from \"{m.dbImport}\";",
      s!"import \x7b {t} \x7d from \"{m.schemaImport}\";",
      "import \x7b eq \x7d from \"drizzle-orm\";",
      "import \x7b NextResponse \x7d from \"next/server\";",
      "",
      "type Params = \x7b params: Promise<\x7b id: string \x7d> \x7d;",
      ""] ++
    handler "GET" ++ select ++ foundLines ++
    failureLines "GET" path "Failed to fetch record" false ++
    [""] ++
    handler "PATCH" ++
    ["    const body = await request.json();"] ++
    (if m.returning then
      ["    const result = await db",
        s!"      .update({t})",
        set,
        s!"      .where(eq({t}.id, {id}))",
        "      .returning();"]
    else
      ["    await db",
        s!"      .update({t})",
        set,
        s!"      .where(eq({t}.id, {id}));",
        ""] ++ select) ++
    foundLines ++
    failureLines "PATCH" path "Failed to update record" true ++
    [""] ++
    handler "DELETE" ++
    [s!"    await db.delete({t}).where(eq({t}.id, {id}));",
      "",
      "    return new NextResponse(null, \x7b status: 204 \x7d);"] ++
    failureLines "DELETE" path "Failed to delete record" false)

end SchemaScaffold.Generated
