import SchemaScaffold.Generated.Actions
import SchemaScaffold.Generated.Pages
import SchemaScaffold.Generated.Routes

/-!
Where the generated modules of a model go: actions and pages into its directory under the app
directory, API routes into its directory under `api`.
-/

namespace SchemaScaffold.Generated

open Naming

/-- The directory of a model's pages. -/
def pagesDir (project : Project) (names : ModelNames) : Path :=
  project.appDir ++ Path.parse names.kebabPlural

/-- The directory of a model's API routes. -/
def apiDir (project : Project) (names : ModelNames) : Path :=
  project.appDir ++ ["api"] ++ Path.parse names.kebabPlural

def actionModules (project : Project) (names : ModelNames) (options : TableOptions) :
    List Module :=
  [{ path := pagesDir project names ++ ["actions.ts"], template := .actions
     content := actions (.of project names options) }]

def pageModules (project : Project) (names : ModelNames) (options : TableOptions)
    (fields : List Field) : List Module :=
  let m : Model := .of project names options
  let dir := pagesDir project names
  [{ path := dir ++ ["page.tsx"], template := .indexPage, content := indexPage m fields },
    { path := dir ++ ["new", "page.tsx"], template := .newPage, content := newPage m fields },
    { path := dir ++ ["[id]", "page.tsx"], template := .showPage, content := showPage m fields },
    { path := dir ++ ["[id]", "edit", "page.tsx"], template := .editPage
      content := editPage m fields }]

def routeModules (project : Project) (names : ModelNames) (options : TableOptions) :
    List Module :=
  let m : Model := .of project names options
  let dir := apiDir project names
  [{ path := dir ++ ["route.ts"], template := .collectionRoute, content := collectionRoute m },
    { path := dir ++ ["[id]", "route.ts"], template := .memberRoute, content := memberRoute m }]

end SchemaScaffold.Generated
