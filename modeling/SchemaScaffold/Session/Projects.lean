import SchemaScaffold.Session.Basic

/-! Finding the project that a command works on, anew or as it was found before. -/

namespace SchemaScaffold.Command

/-- Detects the project at a directory. Without a configuration file its dialect is SQLite, which a
warning can tell. -/
def detectProject (root : Path) (warns : Bool) : Command Project := do
  let tree := (← get).tree
  let layout ← lift .detection (Detection.layout tree root)
  let dialect ←
    match ← lift .detection (Detection.dialect? tree root) with
    | some dialect => pure dialect
    | none =>
      if warns then
        warn ("Warning: " ++ Project.configFile ++ " not found, defaulting to sqlite dialect")
      pure .sqlite
  return { root, layout, dialect, manager := Detection.manager tree root }

/-- The project at a directory, as it was when it was first asked for. -/
def projectAt (root : Path) (warns : Bool) : Command Project := do
  match (← get).remembered.lookup (root, warns) with
  | some project => return project
  | none =>
    let project ← detectProject root warns
    modify fun session =>
      { session with remembered := ((root, warns), project) :: session.remembered }
    return project

/-- The project at the working directory. -/
def currentProject (warns : Bool) : Command Project := do projectAt (← workingDirectory) warns

/-- Makes the next detection look at the files again. -/
def forgetProjects : Command Unit := modify fun session => { session with remembered := [] }

end SchemaScaffold.Command
