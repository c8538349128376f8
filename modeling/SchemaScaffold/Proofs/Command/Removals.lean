import SchemaScaffold.Proofs.Command.Effects

/-!
What destroying code removes: the directory of the model, which holds the modules of no other model.
A name whose table has an empty name is accepted all the same, and its directory is the app directory
itself, or that of all API routes.
-/

namespace SchemaScaffold

open Naming Generated Generate Command SchemaScaffold.Tree SchemaScaffold.Path

/-- Where the directories of the models stand. -/
def DestroyKind.home (project : Project) : DestroyKind → Path
  | .api => project.appDir ++ ["api"]
  | .scaffold | .resource => project.appDir

theorem DestroyKind.directory_eq (kind : DestroyKind) (project : Project) (names : ModelNames) :
    kind.directory project names = kind.home project ++ Path.parse names.kebabPlural := by
  cases kind <;> rfl

variable {project : Project} {a b : String}

theorem DestroyKind.straight_home (h : project.Detected) (kind : DestroyKind) :
    Straight (kind.home project) := by
  cases kind with
  | api => exact h.straight_appDir.append (by decide)
  | scaffold | resource => exact h.straight_appDir

theorem DestroyKind.straight_directory (h : project.Detected) (ha : validateModelName a = .ok ())
    (kind : DestroyKind) : Straight (kind.directory project (.of a)) :=
  kind.directory_eq project _ ▸ (kind.straight_home h).append (up_not_mem_kebabPlural ha)

/-- The directory of a model stands below the others only if its table has a name. -/
theorem DestroyKind.directory_ne_home (ha : validateModelName a = .ok ()) (kind : DestroyKind) :
    kind.directory project (.of a) ≠ kind.home project ↔ (ModelNames.of a).tableName ≠ "" := by
  rw [kind.directory_eq, parse_kebabPlural ha]
  split
  · rename_i hempty
    simp [hempty]
  · rename_i hne
    simp [hne]

namespace Generation

/-- The first steps to modules are none of the names of models, and none of them is `api`. -/
theorem places_first (g : Generation) : ∀ place ∈ g.places, ∃ step rest,
    place = step :: rest ∧ step ∈ routeSegments ∧ step ≠ "api" := by
  have hfirst : ∀ place ∈ g.places,
      place.head?.any (fun step => decide (step ∈ routeSegments ∧ step ≠ "api")) = true := by
    cases g <;> simp only [places] <;> decide
  intro place hplace
  have hhead := hfirst place hplace
  cases place with
  | nil => cases hhead
  | cons step rest => exact ⟨step, rest, rfl, of_decide_eq_true hhead⟩

/-- The modules of a model lie in no directory of another. -/
theorem directory_apart (ha : validateModelName a = .ok ()) (hb : validateModelName b = .ok ())
    (hne : (ModelNames.of a).tableName ≠ "")
    (hdiff : (ModelNames.of a).tableName ≠ (ModelNames.of b).tableName) (kind : DestroyKind)
    (g : Generation) {place : Path} (hplace : place ∈ g.places) :
    ¬ kind.directory project (.of a) <+: g.directory project (.of b) ++ place := by
  have hka : (ModelNames.of a).kebabPlural ∉ routeSegments := kebabPlural_not_segment ha
  obtain ⟨step, rest, hsteps, hstep, happi⟩ : ∃ step rest,
      Path.parse (ModelNames.of b).kebabPlural ++ place = step :: rest ∧
        step ≠ (ModelNames.of a).kebabPlural ∧ step ≠ "api" := by
    rw [parse_kebabPlural hb]
    split
    · obtain ⟨step, rest, rfl, hsegment, happi⟩ := g.places_first place hplace
      exact ⟨step, rest, rfl, fun he => hka (he ▸ hsegment), happi⟩
    · refine ⟨_, place, rfl, fun he => hdiff (tableName_of_kebabPlural ha hb he.symm), fun he => ?_⟩
      exact kebabPlural_not_segment hb (he ▸ by decide)
  have hapi : (ModelNames.of a).kebabPlural ≠ "api" := fun he => hka (he ▸ by decide)
  rw [kind.directory_eq, parse_kebabPlural ha, if_neg hne]
  cases kind <;> cases g <;>
    simp [DestroyKind.home, directory, pagesDir, apiDir, List.append_assoc, hsteps, Ne.symm hstep,
      Ne.symm happi, hapi]

/-- The files of a command are there, and none lies in a directory of another model. -/
theorem files_apart (hproject : project.Detected) (ha : validateModelName a = .ok ())
    (hne : (ModelNames.of a).tableName ≠ "")
    (hdiff : (ModelNames.of a).tableName ≠ (ModelNames.of b).tableName) {g : Generation}
    {options : Options} (hreal : options.dryRun = false) {s : Session} (hs : s.tree.Closed)
    {o : Outcome} (h : value (g.run project options b) s = .ok o) {f : File} (hf : f ∈ o.files) :
    ((after (g.run project options b) s).tree.get? f.path).isSome = true ∧
      ∀ kind : DestroyKind, ¬ kind.directory project (.of a) <+: f.path := by
  have hb := accepted_of_run (run_eq_ok h)
  obtain ⟨fields, traits, entries, -, -, hentries, hfiles, honce, haccounts⟩ :=
    accounts_run hreal (.inl hproject) hs h
  rw [hfiles] at hf
  obtain ⟨e, he, rfl⟩ := List.mem_map.mp hf
  refine ⟨haccounts.present honce he, fun kind => ?_⟩
  have hp : e.1 ∈ g.products project (.of b) fields o.merge traits :=
    hentries ▸ List.mem_map_of_mem he
  show ¬ _ <+: e.1.path
  rcases List.mem_append.mp hp with hp | hp
  · obtain ⟨merge, -, heq⟩ := List.mem_map.mp hp
    rw [← heq, kind.directory_eq]
    refine fun hpre => hproject.appDir_not_prefix [Project.schemaFile] (List.IsPrefix.trans ?_ hpre)
    cases kind <;> simp [DestroyKind.home, List.append_assoc]
  · obtain ⟨m, hm, heq⟩ := List.mem_map.mp hp
    obtain ⟨place, hplace, hm⟩ := mem_modules hm
    rw [← heq]
    show ¬ _ <+: m.path
    rw [← hm]
    exact directory_apart ha hb hne hdiff kind g hplace

end Generation

namespace Command

/-- The law of a command that leaves everything alone but what lies below a directory. -/
theorem within (directory : Path) :
    Law (fun s t => ∀ q, ¬ directory <+: q → t.tree.get? q = s.tree.get? q) fun _ => True :=
  ⟨fun h q _ => by rw [h.tree], fun h k q hq => (k q hq).trans (h q hq), fun _ => trivial, trivial⟩

theorem erase_within {directory : Path} (hpath : Straight directory) :
    Obeys (fun s t => ∀ q, ¬ directory <+: q → t.tree.get? q = s.tree.get? q) (fun _ => True)
      (erase directory) := by
  intro s
  rw [run_erase]
  cases hremove : s.tree.removeDirectory directory with
  | ok tree =>
    obtain ⟨-, rfl⟩ := removeDirectory_ok hpath hremove
    exact fun q hq => get?_erase hq
  | error e => exact ⟨fun _ _ => rfl, trivial⟩

/-- A request to destroy is refused for the name alone. -/
theorem destroy_eq (project : Project) (options : WriteOptions) (kind : DestroyKind) (a : String) :
    destroy project options kind.name a =
      match validateModelName a with
      | .ok _ => destroyPrepared project options kind (.of a)
      | .error e => throw (.name e) := by
  have hkind : DestroyKind.ofName? kind.name = some kind := by cases kind <;> rfl
  have hprepare : prepareDestroy kind.name a =
      ((validateModelName a).mapError .name).bind fun _ => .ok (kind, .of a) := by
    rw [prepareDestroy, hkind]
    rfl
  rw [destroy, hprepare]
  cases validateModelName a <;> rfl

theorem destroy_within (hproject : project.Detected) (options : WriteOptions) (kind : DestroyKind)
    (a : String) :
    Obeys (fun s t => ∀ q, ¬ kind.directory project (.of a) <+: q → t.tree.get? q = s.tree.get? q)
      (fun _ => True) (destroy project options kind.name a) := by
  have hlaw := within (kind.directory project (.of a))
  rw [destroy_eq]
  cases ha : validateModelName a with
  | error e => exact hlaw.throw trivial
  | ok _ => exact hlaw.destroyPrepared (.inr (erase_within (kind.straight_directory hproject ha)))

/-- Destroying the code of a model removes a directory below those it may share, and so leaves the
files of all other models as they are, if the table of the model has a name. Otherwise it removes
the shared directory itself. -/
theorem destroy_isolated_iff (project : Project) (hproject : project.Detected) (a : String)
    (ha : validateModelName a = .ok ()) (kind : DestroyKind) :
    (kind.home project <+: kind.directory project (.of a) ∧
      (kind.directory project (.of a) ≠ kind.home project ↔ (ModelNames.of a).tableName ≠ "")) ∧
    (∀ options s, ∀ q, ¬ kind.directory project (.of a) <+: q →
      (after (destroy project options kind.name a) s).tree.get? q = s.tree.get? q) ∧
    ((ModelNames.of a).tableName ≠ "" → ∀ b (g : Generation) options s o,
      (ModelNames.of b).tableName ≠ (ModelNames.of a).tableName → options.dryRun = false →
      s.tree.Closed → value (g.run project options b) s = .ok o →
      ∀ destroyOptions, ∀ f ∈ o.files,
        let u := after (g.run project options b) s
        (u.tree.get? f.path).isSome = true ∧
          (after (destroy project destroyOptions kind.name a) u).tree.get? f.path =
            u.tree.get? f.path) := by
  refine ⟨⟨kind.directory_eq project _ ▸ List.prefix_append _ _, kind.directory_ne_home ha⟩,
    fun options s => (destroy_within hproject options kind a).moves s, ?_⟩
  intro hne b g options s o hdiff hreal hs hrun destroyOptions f hf u
  obtain ⟨hthere, hapart⟩ :=
    Generation.files_apart hproject ha hne (Ne.symm hdiff) hreal hs hrun hf
  exact ⟨hthere, (destroy_within hproject destroyOptions kind a).moves u f.path (hapart kind)⟩

/-- An empty project of the default layout. -/
def plainProject : Project := { root := [], layout := {}, dialect := .sqlite }

def plainSession : Session := { base := "/project", tree := .empty }

theorem plainProject_detected : plainProject.Detected :=
  ⟨by decide, .empty, by decide +kernel⟩

theorem destroy_isolated_iff_plain :
    let u := after (Generation.run plainProject {} "Post" (.pages [])) plainSession
    (u.tree.get? ["app", "posts", "page.tsx"]).isSome = true ∧
      (after (destroy plainProject {} "scaffold" "Tag") u).tree.get? ["app", "posts", "page.tsx"] =
        u.tree.get? ["app", "posts", "page.tsx"] := by
  intro u
  have hnames : (ModelNames.of "Tag").tableName ≠ "" ∧
      (ModelNames.of "Post").tableName ≠ (ModelNames.of "Tag").tableName := by
    decide +kernel
  have hfiles : (value (Generation.run plainProject {} "Post" (.pages [])) plainSession).map
      (fun o => (o.files.head?.map (·.path))) = .ok (some ["app", "posts", "page.tsx"]) := by
    decide +kernel
  cases hrun : value (Generation.run plainProject {} "Post" (.pages [])) plainSession with
  | error e =>
    rw [hrun] at hfiles
    cases hfiles
  | ok o =>
    rw [hrun] at hfiles
    obtain ⟨f, hf, hpath⟩ := Option.map_eq_some_iff.mp (Except.ok.inj hfiles)
    have hkept := (destroy_isolated_iff plainProject plainProject_detected "Tag" (by decide +kernel)
      .scaffold).2.2 hnames.1 "Post" (.pages []) {} plainSession o hnames.2 rfl (by decide) hrun {} f
      (List.mem_of_mem_head? hf)
    rwa [hpath] at hkept

/-- The table of `S` has no name, so destroying its code removes that of every other model. -/
theorem destroy_removes_others :
    let u := after (Generation.run plainProject {} "Post" (.pages [])) plainSession
    plainProject.Detected ∧ validateModelName "S" = .ok () ∧ validateModelName "Post" = .ok () ∧
      (ModelNames.of "S").tableName ≠ (ModelNames.of "Post").tableName ∧
      (value (Generation.run plainProject {} "Post" (.pages [])) plainSession).map Outcome.written =
        .ok [["app", "posts", "page.tsx"], ["app", "posts", "new", "page.tsx"],
          ["app", "posts", "[id]", "page.tsx"], ["app", "posts", "[id]", "edit", "page.tsx"]] ∧
      value (destroy plainProject {} "scaffold" "S") u = .ok true ∧
      (after (destroy plainProject {} "scaffold" "S") u).tree.get? ["app", "posts", "page.tsx"] =
        none := by
  refine ⟨plainProject_detected, ?_⟩
  decide +kernel

end Command
end SchemaScaffold
