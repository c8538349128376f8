import SchemaScaffold.Generated.Basic

/-! The server actions of a model: list, get, create, update and delete. -/

namespace SchemaScaffold.Generated

/-- The columns that callers do not set. -/
def Model.omitted (m : Model) : String :=
  if m.options.timestamps then "\"id\" | \"createdAt\" | \"updatedAt\"" else "\"id\""

def createStatements (m : Model) : List String :=
  let t := m.table
  if m.returning then
    [s!"  const result = await db.insert({t}).values(data).returning();"]
  else
    [s!"  const inserted = await db.insert({t}).values(data).$returningId();",
      "  const result = await db",
      "    .select()",
      s!"    .from({t})",
      s!"    .where(eq({t}.id, inserted[0].id))",
      "    .limit(1);"]

def updateStatements (m : Model) : List String :=
  let t := m.table
  let data := m.updateFrom "data"
  let set := s!"    .set({data})"
  if m.returning then
    ["  const result = await db",
      s!"    .update({t})",
      set,
      s!"    .where(eq({t}.id, id))",
      "    .returning();"]
  else
    ["  await db",
      s!"    .update({t})",
      set,
      s!"    .where(eq({t}.id, id));",
      "",
      "  const result = await db",
      "    .select()",
      s!"    .from({t})",
      s!"    .where(eq({t}.id, id))",
      "    .limit(1);"]

/-- The module of server actions. -/
def actions (m : Model) : String :=
  let t := m.table
  let one := m.names.pascalName
  let many := m.names.pascalPlural
  let kebab := m.names.kebabPlural
  Text.unlines (
    ["\"use server\";",
      "",
      s!"import \x7b db \x7d from \"{m.dbImport}\";",
      s!"import \x7b {t} \x7d from \"{m.schemaImport}\";",
      "import \x7b eq, desc \x7d from \"drizzle-orm\";",
      "import \x7b revalidatePath \x7d from \"next/cache\";",
      "",
      s!"export type {one} = typeof {t}.$inferSelect;",
      s!"export type New{one} = typeof {t}.$inferInsert;",
      "",
      s!"export async function get{many}() \x7b",
      s!"  return db.select().from({t}).orderBy(desc({t}.{m.orderColumn}));",
      "\x7d",
      "",
      s!"export async function get{one}(id: {m.idType}) \x7b",
      "  const result = await db",
      "    .select()",
      s!"    .from({t})",
      s!"    .where(eq({t}.id, id))",
      "    .limit(1);",
      "",
      "  return result[0] ?? null;",
      "\x7d",
      "",
      s!"export async function create{one}(data: Omit<New{one}, {m.omitted}>) \x7b"] ++
    createStatements m ++
    ["",
      s!"  revalidatePath(\"/{kebab}\");",
      "",
      "  return result[0];",
      "\x7d",
      "",
      s!"export async function update{one}(",
      s!"  id: {m.idType},",
      s!"  data: Partial<Omit<New{one}, {m.omitted}>>",
      ") \x7b"] ++
    updateStatements m ++
    ["",
      s!"  revalidatePath(\"/{kebab}\");",
      "",
      "  return result[0];",
      "\x7d",
      "",
      s!"export async function delete{one}(id: {m.idType}) \x7b",
      s!"  await db.delete({t}).where(eq({t}.id, id));",
      "",
      s!"  revalidatePath(\"/{kebab}\");",
      "\x7d"])

end SchemaScaffold.Generated
