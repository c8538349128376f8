import SchemaScaffold.Project.Detection
import SchemaScaffold.Proofs.Command.Generations
import SchemaScaffold.Proofs.Naming.Routes
import SchemaScaffold.Proofs.Project.Paths

/-!
Where commands put their files. The modules of a model stand in its directory below the app
directory, the schema file in the database directory. In a project as detection finds it the two do
not meet; in a project that is configured otherwise they might.
-/

namespace SchemaScaffold

open Naming Generated SchemaScaffold.Path

/-! ## The directory of a model -/

/-- The directory of a model is one step, unless the name of its table is empty. -/
theorem parse_kebabPlural {name : String} (h : validateModelName name = .ok ()) :
    Path.parse (ModelNames.of name).kebabPlural =
      if (ModelNames.of name).tableName = "" then [] else [(ModelNames.of name).kebabPlural] := by
  have hchars := kebabPlural_chars h
  split
  · rename_i hempty
    rw [(kebabPlural_eq_empty h).mpr hempty]
    rfl
  · rename_i hne
    refine Path.parse_name (fun hslash => ?_) (fun he => hne ((kebabPlural_eq_empty h).mp he))
      fun hdot => ?_
    · exact absurd (hchars _ hslash) (by decide)
    · exact absurd (hchars '.' (by rw [hdot]; decide)) (by decide)

theorem up_not_mem_kebabPlural {name : String} (h : validateModelName name = .ok ()) :
    up ∉ Path.parse (ModelNames.of name).kebabPlural := by
  rw [parse_kebabPlural h]
  split
  · exact List.not_mem_nil
  · intro hup
    have hchars := kebabPlural_chars h
    rw [← List.mem_singleton.mp hup] at hchars
    exact absurd (hchars '.' (by decide)) (by decide)

/-! ## Projects -/

/-- A project as detection finds it, in this tree or in an earlier one. -/
structure Project.Detected (p : Project) : Prop where
  root : Straight p.root
  layout : ∃ t, Detection.layout t p.root = .ok p.layout

/-- The folders that detection tells, below the root or below `src`. -/
theorem Detection.layout_folders {t : Tree} {root : Path} {l : Layout}
    (h : Detection.layout t root = .ok l) : ∃ start ∈ ["", "src/"],
      ∃ place ∈ ["db", "lib/db", "server/db"],
        l.appFolder = start ++ "app" ∧ l.dbFolder = start ++ place := by
  obtain ⟨importAlias, -, hlayout⟩ := bind_ok h
  have hl := Except.ok.inj hlayout
  rw [← hl]
  have hstart : (if t.exists? (root ++ ["src", "app"]) then "src/" else "") ∈ ["", "src/"] := by
    split <;> simp
  refine ⟨_, hstart, ?_⟩
  generalize (if t.exists? (root ++ ["src", "app"]) then "src/" else "") = start
  cases hfind : (Detection.dbCandidates start).find? fun place => t.exists? (root ++ Path.parse place) with
  | none => exact ⟨"db", by simp, rfl, rfl⟩
  | some folder =>
    obtain ⟨place, hplace, hfolder⟩ := List.mem_map.mp (List.mem_of_find?_eq_some hfind)
    exact ⟨place, hplace, rfl, hfolder.symm⟩

/-- The database directory of a detected project leaves the app directory at its last step. -/
theorem Project.Detected.folders {p : Project} (h : p.Detected) :
    ∃ start ∈ [[], ["src"]], ∃ db ∈ [["db"], ["lib", "db"], ["server", "db"]],
      p.appDir = p.root ++ (start ++ ["app"]) ∧ p.dbDir = p.root ++ (start ++ db) := by
  obtain ⟨t, ht⟩ := h.layout
  obtain ⟨start, hstart, place, hplace, happ, hdb⟩ := Detection.layout_folders ht
  have hparse : ∀ start ∈ ["", "src/"], ∀ place ∈ ["db", "lib/db", "server/db"],
      ∃ steps ∈ [[], ["src"]], ∃ db ∈ [["db"], ["lib", "db"], ["server", "db"]],
        Path.parse (start ++ "app") = steps ++ ["app"] ∧ Path.parse (start ++ place) = steps ++ db := by
    decide
  obtain ⟨steps, hfrom, db, hdbs, happs, hplaces⟩ := hparse start hstart place hplace
  exact ⟨steps, hfrom, db, hdbs, by rw [Project.appDir, happ, happs],
    by rw [Project.dbDir, hdb, hplaces]⟩

theorem Project.Detected.straight_appDir {p : Project} (h : p.Detected) : Straight p.appDir := by
  obtain ⟨start, hstart, db, -, happ, -⟩ := h.folders
  have hup : ∀ start ∈ [[], ["src"]], up ∉ start ++ ["app"] := by decide
  exact happ ▸ h.root.append (hup start hstart)

theorem Project.Detected.straight_dbDir {p : Project} (h : p.Detected) : Straight p.dbDir := by
  obtain ⟨start, hstart, db, hdb, -, hdir⟩ := h.folders
  have hup : ∀ start ∈ [[], ["src"]], ∀ db ∈ [["db"], ["lib", "db"], ["server", "db"]],
      up ∉ start ++ db := by decide
  exact hdir ▸ h.root.append (hup start hstart db hdb)

/-- The app directory of a detected project is not above its database directory. -/
theorem Project.Detected.appDir_not_prefix {p : Project} (h : p.Detected) (rest : Path) :
    ¬ p.appDir <+: p.dbDir ++ rest := by
  obtain ⟨start, -, db, hdb, happ, hdir⟩ := h.folders
  rw [happ, hdir, List.append_assoc, List.append_assoc, List.prefix_append_right_inj,
    List.prefix_append_right_inj]
  have hhead : ∀ db ∈ [["db"], ["lib", "db"], ["server", "db"]], ∃ step others,
      db = step :: others ∧ step ≠ "app" := by
    intro db hdb
    simp only [List.mem_cons, List.not_mem_nil, or_false] at hdb
    rcases hdb with rfl | rfl | rfl <;> exact ⟨_, _, rfl, by decide⟩
  obtain ⟨step, others, rfl, hne⟩ := hhead db hdb
  simp [Ne.symm hne]

namespace Generation

/-- A project in which the directories are written without steps back, and the database directory
does not run through a module that the command writes. -/
structure Apart (project : Project) (name : String) (g : Generation) : Prop where
  app : Straight project.appDir
  db : Straight project.dbDir
  apart : ∀ place ∈ g.places, ¬ g.directory project (ModelNames.of name) ++ place <+: project.dbDir

instance (project : Project) (name : String) (g : Generation) : Decidable (g.Apart project name) :=
  decidable_of_iff
    (Straight project.appDir ∧ Straight project.dbDir ∧
      ∀ place ∈ g.places, ¬ g.directory project (ModelNames.of name) ++ place <+: project.dbDir)
    ⟨fun ⟨app, db, apart⟩ => ⟨app, db, apart⟩, fun h => ⟨h.app, h.db, h.apart⟩⟩

/-- The modules of a model go below the app directory. -/
theorem directory_eq {name : String} (h : validateModelName name = .ok ()) (project : Project)
    (g : Generation) : ∃ rest, up ∉ rest ∧
      g.directory project (ModelNames.of name) = project.appDir ++ rest := by
  have hup := up_not_mem_kebabPlural h
  cases g <;> first
    | exact ⟨_, hup, rfl⟩
    | exact ⟨["api"] ++ Path.parse (ModelNames.of name).kebabPlural,
        by simp [hup, show up ≠ "api" by decide], List.append_assoc ..⟩

/-- The places of a command's modules: none is above another, and none looks like a step up or like
the schema file. -/
theorem places_apart (g : Generation) : g.places.Pairwise fun p q => ¬ p <+: q ∧ ¬ q <+: p := by
  cases g <;> simp only [places] <;> decide

theorem places_steps (g : Generation) :
    ∀ place ∈ g.places, up ∉ place ∧ place ≠ [] ∧ place.getLast? ≠ some Project.schemaFile := by
  cases g <;> simp only [places] <;> decide

theorem apart_of_detected {project : Project} (h : project.Detected)
    {name : String} (hname : validateModelName name = .ok ()) (g : Generation) :
    g.Apart project name := by
  refine ⟨h.straight_appDir, h.straight_dbDir, fun place _ hpre => ?_⟩
  obtain ⟨rest, -, hdir⟩ := g.directory_eq hname project
  rw [hdir, List.append_assoc] at hpre
  exact h.appDir_not_prefix [] (by simpa using (List.prefix_append _ _).trans hpre)

section Modules

variable {project : Project} {name : String} {g : Generation}

theorem Apart.straight_schemaPath (h : g.Apart project name) : Straight project.schemaPath :=
  h.db.append (by decide)

/-- The paths of the modules a command writes. -/
def paths (project : Project) (name : String) (g : Generation) : List Path :=
  g.places.map (g.directory project (ModelNames.of name) ++ ·)

theorem Apart.straight_path (h : g.Apart project name) (hname : validateModelName name = .ok ())
    {p : Path} (hp : p ∈ g.paths project name) : Straight p := by
  obtain ⟨place, hplace, rfl⟩ := List.mem_map.mp hp
  obtain ⟨rest, hrest, hdir⟩ := g.directory_eq hname project
  rw [hdir, List.append_assoc]
  exact h.app.append (by simp [hrest, (g.places_steps place hplace).1])

/-- A module is neither the schema file nor above it. -/
theorem Apart.not_above_schema (h : g.Apart project name) {p : Path}
    (hp : p ∈ g.paths project name) : ¬ p <+: project.schemaPath := by
  obtain ⟨place, hplace, rfl⟩ := List.mem_map.mp hp
  obtain ⟨-, hne, hlast⟩ := g.places_steps place hplace
  rw [Project.schemaPath, List.prefix_concat_iff]
  rintro (he | hpre)
  · obtain ⟨front, last, rfl⟩ := (List.eq_nil_or_concat place).resolve_left hne
    have hend := congrArg List.getLast? he
    rw [List.concat_eq_append, ← List.append_assoc, List.getLast?_concat, List.getLast?_concat] at hend
    exact hlast (by rw [List.concat_eq_append, List.getLast?_concat, hend])
  · exact h.apart place hplace hpre

theorem paths_apart (project : Project) (name : String) (g : Generation) :
    (g.paths project name).Pairwise fun p q => ¬ p <+: q ∧ ¬ q <+: p := by
  refine List.pairwise_map.mpr (g.places_apart.imp fun hpq => ?_)
  simpa only [List.prefix_append_right_inj] using hpq

end Modules

end Generation
end SchemaScaffold
