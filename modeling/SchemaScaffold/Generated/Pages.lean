import SchemaScaffold.Generated.Form
import SchemaScaffold.Text.LetterCase

/-! The pages of a model: the list, the form for a new record, a record, and its edit form. -/

namespace SchemaScaffold.Generated

open Naming

/-- The page that lists the records. -/
def indexPage (m : Model) (fields : List Field) : String :=
  let one := m.names.pascalName
  let many := m.names.pascalPlural
  let kebab := m.names.kebabPlural
  let list := m.names.camelPlural
  let item := m.record
  let absent := String.ofList (Text.lower (humanize many).toList)
  Text.unlines (
    ["import Link from \"next/link\";",
      s!"import \x7b get{many}, delete{one} \x7d from \"./actions\";",
      "",
      s!"export default async function {many}Page() \x7b",
      s!"  const {list} = await get{many}();",
      "",
      "  return (",
      "    <div>",
      "      <div>",
      s!"        <h1>{humanize many}</h1>",
      s!"        <Link href=\"/{kebab}/new\">New {humanize one}</Link>",
      "      </div>",
      "",
      s!"      \x7b{list}.length === 0 ? (",
      s!"        <p>No {absent} yet.</p>",
      "      ) : (",
      "        <table>",
      "          <thead>",
      "            <tr>"] ++
    fields.map (fun f => s!"              <th>{humanize f.name}</th>") ++
    ["              <th></th>",
      "            </tr>",
      "          </thead>",
      "          <tbody>",
      s!"            \x7b{list}.map(({item}) => (",
      s!"              <tr key=\x7b{item}.id\x7d>"] ++
    fields.map (fun f => s!"                <td>\x7b {f.displayValue item} \x7d</td>") ++
    ["                <td>",
      s!"                  <Link href=\x7b`/{kebab}/$\x7b{item}.id\x7d`\x7d>Show</Link>",
      s!"                  <Link href=\x7b`/{kebab}/$\x7b{item}.id\x7d/edit`\x7d>Edit</Link>",
      "                  <form",
      "                    action=\x7basync () => \x7b",
      "                      \"use server\";",
      s!"                      await delete{one}({item}.id);",
      "                    \x7d\x7d",
      "                  >",
      "                    <button type=\"submit\">Delete</button>",
      "                  </form>",
      "                </td>",
      "              </tr>",
      "            ))\x7d",
      "          </tbody>",
      "        </table>",
      "      )\x7d",
      "    </div>",
      "  );",
      "\x7d"])

/-- The page with the form for a new record. -/
def newPage (m : Model) (fields : List Field) : String :=
  let one := m.names.pascalName
  let kebab := m.names.kebabPlural
  Text.unlines (
    ["import Link from \"next/link\";",
      "import \x7b redirect \x7d from \"next/navigation\";",
      s!"import \x7b create{one}{newTypeImport m fields} \x7d from \"../actions\";",
      "",
      s!"export default function New{one}Page() \x7b",
      "  async function action(formData: FormData) \x7b",
      "    \"use server\";",
      "",
      s!"    await create{one}(\x7b"] ++
    valueLines m fields ++
    ["    \x7d);",
      "",
      s!"    redirect(\"/{kebab}\");",
      "  \x7d",
      "",
      "  return (",
      "    <div>",
      s!"      <h1>New {humanize one}</h1>",
      "",
      "      <form action=\x7baction\x7d>"] ++
    fields.flatMap (fieldLines none) ++
    [s!"        <button type=\"submit\">Create {humanize one}</button>",
      "      </form>",
      "",
      s!"      <Link href=\"/{kebab}\">Back</Link>",
      "    </div>",
      "  );",
      "\x7d"])

/-- The parts that the pages of a single record share: its route parameter, and reading it. -/
def recordLines (m : Model) (page : String) : List String :=
  let item := m.record
  ["type Props = \x7b params: Promise<\x7b id: string \x7d> \x7d;",
    "",
    s!"export default async function {page}(\x7b params \x7d: Props) \x7b",
    "  const \x7b id \x7d = await params;",
    s!"  const {item} = await get{m.names.pascalName}({m.idExpression});",
    "",
    s!"  if (!{item}) \x7b",
    "    notFound();",
    "  \x7d",
    ""]

/-- The page of a single record. -/
def showPage (m : Model) (fields : List Field) : String :=
  let one := m.names.pascalName
  let kebab := m.names.kebabPlural
  let item := m.record
  Text.unlines (
    ["import Link from \"next/link\";",
      "import \x7b notFound \x7d from \"next/navigation\";",
      s!"import \x7b get{one} \x7d from \"../actions\";",
      ""] ++
    recordLines m s!"{one}Page" ++
    ["  return (",
      "    <div>",
      s!"      <h1>{humanize one}</h1>",
      "",
      "      <dl>"] ++
    fields.flatMap (fun f =>
      [s!"        <dt>{humanize f.name}</dt>",
        s!"        <dd>\x7b {f.displayValue item} \x7d</dd>"]) ++
    ["      </dl>",
      "",
      s!"      <Link href=\x7b`/{kebab}/$\x7b{item}.id\x7d/edit`\x7d>Edit</Link>",
      s!"      <Link href=\"/{kebab}\">Back</Link>",
      "    </div>",
      "  );",
      "\x7d"])

/-- The page with the form that edits a record. -/
def editPage (m : Model) (fields : List Field) : String :=
  let one := m.names.pascalName
  let kebab := m.names.kebabPlural
  Text.unlines (
    ["import Link from \"next/link\";",
      "import \x7b notFound, redirect \x7d from \"next/navigation\";",
      s!"import \x7b get{one}, update{one}{newTypeImport m fields} \x7d from \"../../actions\";",
      ""] ++
    recordLines m s!"Edit{one}Page" ++
    ["  async function action(formData: FormData) \x7b",
      "    \"use server\";",
      "",
      s!"    await update{one}({m.idExpression}, \x7b"] ++
    valueLines m fields ++
    ["    \x7d);",
      "",
      s!"    redirect(`/{kebab}/$\x7bid\x7d`);",
      "  \x7d",
      "",
      "  return (",
      "    <div>",
      s!"      <h1>Edit {humanize one}</h1>",
      "",
      "      <form action=\x7baction\x7d>"] ++
    fields.flatMap (fieldLines (some m.record)) ++
    [s!"        <button type=\"submit\">Update {humanize one}</button>",
      "      </form>",
      "",
      s!"      <Link href=\x7b`/{kebab}/$\x7bid\x7d`\x7d>Back</Link>",
      "    </div>",
      "  );",
      "\x7d"])

end SchemaScaffold.Generated
