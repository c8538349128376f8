import SchemaScaffold.Proofs.Command.Parallel
import SchemaScaffold.Proofs.Command.Removals
import SchemaScaffold.Proofs.Command.Reruns

/-!
Destroying what was generated. A directory that was not there before holds nothing but the modules of
the command, so removing it takes back all that the command did besides its table; what may stay are
the directories above it that were missing.
-/

namespace SchemaScaffold

open Naming Generated Generate Command SchemaScaffold.Tree SchemaScaffold.Path

/-- A session in which every file lies in a directory, and whose working directory is there. -/
structure Session.Sound (s : Session) : Prop where
  closed : s.tree.Closed
  standing : ∀ d, s.directory = some d → s.tree.get? d = some .directory

/-- Whether destroying a kind of code takes back what a command generated besides the table. -/
def DestroyKind.undoes : DestroyKind → Generation → Bool
  | .scaffold, .scaffold _ | .scaffold, .resource _ | .resource, .scaffold _
  | .resource, .resource _ | .api, .api _ => true
  | _, _ => false

theorem DestroyKind.undoes_cases {kind : DestroyKind} {g : Generation} (h : kind.undoes g = true) :
    g.addsTable = true ∧ g.places ≠ [] ∧
      ∀ project names, g.directory project names = kind.directory project names := by
  cases kind <;> cases g <;> first
    | exact absurd h Bool.false_ne_true
    | exact ⟨rfl, by simp [Generation.places], fun _ _ => rfl⟩

namespace Generation

variable {project : Project} {options : Options} {name : String} {names : ModelNames}
  {fields : List Field} {g : Generation} {s t u : Session}

/-- The steps of writing a table and modules. -/
theorem write_parts {options : WriteOptions} {m : Schema.Merge} {traits : TableOptions} {o : Outcome}
    (h : g.write project options names fields (some m) traits t = .ok o u) : ∃ r p w,
      putTable project options names m t = .ok () r ∧
      writeModules options (g.modules project names traits fields) r = .ok p w ∧ w.SameFiles u ∧
      o = (tableOutcome project m).append p := by
  obtain ⟨_, r, htable, h⟩ := returns_bind h
  obtain ⟨p, w, hwrite, h⟩ := returns_bind h
  obtain ⟨_, v, hclosing, h⟩ := returns_bind h
  cases h
  obtain ⟨_, r', hput, hnil⟩ := returns_bind htable
  cases hnil
  exact ⟨r, p, w, hput, hwrite, (obeys_closing looking _ _ _).returns hclosing, rfl⟩

/-- Adding the table alone leaves the files as they are before the modules are written. -/
theorem model_run {definitions : List String}
    (hprepared : Generate.prepare options name definitions = .ok (.of name, fields))
    {m : Schema.Merge} (hmerged : value (mergeTable project options (.of name) fields) s = .ok m)
    (hsame : s.SameFiles t)
    (hput : putTable project options.toWriteOptions (.of name) m t = .ok () u) :
    ∃ v, (Generation.model definitions).run project options name s = .ok (tableOutcome project m) v ∧
      v.SameFiles u := by
  have hmerge := run_eq_ok hmerged
  have hlooks := (Reads.mergeTable project options (.of name) fields).looks.moves s
  obtain ⟨v, hv, hquiet⟩ := steady_putTable project options.toWriteOptions (.of name) m _ t
    (hlooks.symm.trans hsame) () u hput
  have hprepare : Command.prepare options name definitions s = .ok (.of name, fields) s := by
    rw [Command.prepare, hprepared]
    rfl
  refine ⟨v, ?_, hquiet⟩
  show Command.model project options name definitions s = _
  rw [Command.model, bind_run hprepare]
  show Command.mergeModel project options (.of name) fields s = _
  rw [mergeModel_eq, bind_run hmerge, bind_run hv]
  rfl

end Generation

/-! ## What the modules leave -/

namespace DestroyKind

variable {project : Project} {name : String}

theorem appDir_prefix_home (project : Project) (kind : DestroyKind) :
    project.appDir <+: kind.home project := by
  cases kind with
  | api => exact List.prefix_append _ _
  | scaffold | resource => exact List.prefix_refl _

theorem appDir_prefix_directory (project : Project) (kind : DestroyKind) (names : ModelNames) :
    project.appDir <+: kind.directory project names := by
  rw [kind.directory_eq]
  exact (kind.appDir_prefix_home project).trans (List.prefix_append _ _)

/-- Between the app directory and the home of the directories there is nothing else. -/
theorem home_steps {kind : DestroyKind} {q : Path} (happ : project.appDir <+: q)
    (hhome : q <+: kind.home project) : q = project.appDir ∨ q = kind.home project := by
  cases kind with
  | scaffold | resource => exact .inl (happ.eq_of_length_le hhome.length_le).symm
  | api =>
    rcases List.prefix_concat_iff.mp hhome with heq | hpre
    · exact .inr heq
    · exact .inl (happ.eq_of_length_le hpre.length_le).symm

/-- On the way to the directory of a model, and short of it, one is on the way to its home. -/
theorem prefix_home (hname : validateModelName name = .ok ()) {kind : DestroyKind} {q : Path}
    (hpre : q <+: kind.directory project (.of name))
    (hshort : ¬ kind.directory project (.of name) <+: q) : q <+: kind.home project := by
  rw [kind.directory_eq, parse_kebabPlural hname] at hpre hshort
  split at hpre
  · rwa [List.append_nil] at hpre
  · rename_i hne
    rw [if_neg hne] at hshort
    rcases List.prefix_concat_iff.mp hpre with rfl | hpre
    · exact absurd (List.prefix_refl _) hshort
    · exact hpre

/-- What is missing on the way to the app directory is the app directory itself: the one that holds it
is there because the schema file is. -/
theorem appDir_prefix_missing (hproject : project.Detected) {t : Tree} (ht : t.Closed)
    (hschema : (t.get? project.schemaPath).isSome = true) {q : Path} (hnone : t.get? q = none)
    (hpre : q <+: project.appDir) : project.appDir <+: q := by
  obtain ⟨start, -, db, -, happ, hdb⟩ := hproject.folders
  rw [happ, ← List.append_assoc] at hpre ⊢
  rcases List.prefix_concat_iff.mp hpre with heq | hstart
  · exact heq ▸ List.prefix_refl _
  · have hpath : project.schemaPath = project.root ++ start ++ (db ++ [Project.schemaFile]) := by
      rw [Project.schemaPath, hdb]
      simp
    have hway : q <+: project.schemaPath := hpath ▸ hstart.trans (List.prefix_append _ _)
    have hne : q ≠ project.schemaPath := by
      intro heq
      have hlength := hstart.length_le
      rw [heq, hpath] at hlength
      simp only [List.length_append, List.length_cons, List.length_nil] at hlength
      omega
    rw [ht.above hschema hway hne] at hnone
    cases hnone

/-- Beside the directory of a model its modules change nothing but missing directories above it. -/
theorem beside_modules (hproject : project.Detected) (hname : validateModelName name = .ok ())
    (kind : DestroyKind) {t u : Tree} {files : List (Path × String)} (hwrote : Wrote t u files)
    (hfiles : ∀ f ∈ files, kind.directory project (.of name) <+: f.1) (ht : t.Closed)
    (hschema : (t.get? project.schemaPath).isSome = true) {q : Path}
    (hq : ¬ kind.directory project (.of name) <+: q) :
    u.get? q = t.get? q ∨ (q = project.appDir ∨ q = kind.home project) ∧ t.get? q = none ∧
      u.get? q = some .directory := by
  have hnot : q ∉ files.map (·.1) := by
    intro hmem
    obtain ⟨f, hf, rfl⟩ := List.mem_map.mp hmem
    exact hq (hfiles f hf)
  rcases hwrote.kept q hnot with hsame | ⟨hnone, hdir, f, hf, hpre⟩
  · exact .inl hsame
  · have hway : q <+: kind.directory project (.of name) :=
      (List.prefix_or_prefix_of_prefix hpre (hfiles f hf)).resolve_right hq
    have hhome := prefix_home hname hway hq
    have happ : project.appDir <+: q :=
      (List.prefix_or_prefix_of_prefix (kind.appDir_prefix_home project) hhome).elim id
        (appDir_prefix_missing hproject ht hschema hnone)
    exact .inr ⟨home_steps happ hhome, hnone, hdir⟩

end DestroyKind

namespace Command

variable {project : Project} {name : String}

/-- A directory that is there is removed, and the working directory stays unless it lies below. -/
theorem run_deleteDirectory {options : WriteOptions} (hreal : options.dryRun = false) {path : Path}
    (hpath : Straight path) {s : Session} (hthere : s.tree.locate path = .found path .directory)
    (hstands : s.directory.isSome = true) (hoff : ∀ d, s.directory = some d → ¬ path <+: d) :
    ∃ t, deleteDirectory options path s = .ok true t ∧ t.tree = s.tree.erase path := by
  obtain ⟨r, hask, hquiet⟩ : Idle (exists? path) s true := .exists? (probe_true.mpr ⟨_, _, hthere⟩)
  obtain ⟨d, hd⟩ := Option.isSome_iff_exists.mp hstands
  have hkept : (Path.normalize path).isPrefixOf d = false := by
    rw [hpath, ← Bool.not_eq_true, List.isPrefixOf_iff_prefix]
    exact hoff d hd
  have herase : erase path r = .ok () { r with tree := s.tree.erase path } := by
    have hremove : r.tree.removeDirectory path = .ok (s.tree.erase path) := by
      rw [hquiet.tree, removeDirectory, hthere]
    rw [run_erase, hremove]
    dsimp only
    rw [hquiet.directory, hd, Option.filter_some, hkept]
    rfl
  obtain ⟨t, hreport, hsame⟩ : Idle (report .remove path) { r with tree := s.tree.erase path } () :=
    .report _ _ (hquiet.directory ▸ hstands)
  refine ⟨t, ?_, hsame.tree⟩
  rw [deleteDirectory, bind_run hask, if_neg (by simp), if_neg (by simp [hreal]), bind_run herase,
    bind_run hreport]
  rfl

theorem destroy_run (hproject : project.Detected) (hname : validateModelName name = .ok ())
    {kind : DestroyKind} {options : WriteOptions} (hreal : options.dryRun = false) {s : Session}
    (hthere : ∃ place, s.tree.locate (kind.directory project (.of name)) = .found place .directory)
    (hstands : s.directory.isSome = true)
    (hoff : ∀ d, s.directory = some d → ¬ kind.directory project (.of name) <+: d) :
    ∃ t, destroy project options kind.name name s = .ok true t ∧
      t.tree = s.tree.erase (kind.directory project (.of name)) := by
  have hpath := kind.straight_directory hproject hname
  obtain ⟨place, hlocate⟩ := hthere
  obtain ⟨rfl, -, -⟩ := locate_found hpath hlocate
  rw [destroy_eq, hname]
  dsimp only
  obtain ⟨r, hsay, hquiet⟩ := Idle.say ("\n" ++ mark options ++ "Destroying " ++ kind.label ++ " " ++
    (ModelNames.of name).pascalName ++ "...\n") s
  obtain ⟨t, hdelete, htree⟩ := run_deleteDirectory hreal hpath (hquiet.tree ▸ hlocate)
    (hquiet.directory ▸ hstands) (hquiet.directory ▸ hoff)
  obtain ⟨v, hnote, hnoted⟩ := Idle.say ("\nNote: Schema in " ++ Console.escape project.layout.dbFolder ++
    "/" ++ Project.schemaFile ++ " was not modified.") t
  obtain ⟨w, hhint, hhinted⟩ := Idle.say "      Remove the table definition manually if needed." v
  refine ⟨w, ?_, ?_⟩
  · rw [destroyPrepared, bind_run hsay, bind_run hdelete, bind_run hnote, bind_run hhint]
    rfl
  · rw [(hnoted.trans hhinted).tree, htree, hquiet.tree]

/-- A run that puts a table and writes modules below a directory: the files beside that directory are
those that putting the table left, but for missing directories above it. -/
theorem generated_beside (hproject : project.Detected) {kind : DestroyKind} {g : Generation}
    (hkind : kind.undoes g = true) {options : Options} (hreal : options.dryRun = false)
    (hname : validateModelName name = .ok ()) {fields : List Field} {m : Schema.Merge}
    {traits : TableOptions} {o : Outcome} {s t u : Session} (hs : s.tree.Closed)
    (hmerged : value (Generation.mergeTable project options (.of name) fields) s = .ok m)
    (hsame : s.SameFiles t)
    (hwrite : g.write project options.toWriteOptions (.of name) fields (some m) traits t = .ok o u) :
    ∃ r, Generation.putTable project options.toWriteOptions (.of name) m t = .ok () r ∧
      r.tree.Closed ∧
      r.tree.get? (kind.directory project (.of name)) = s.tree.get? (kind.directory project (.of name)) ∧
      ∀ q, ¬ kind.directory project (.of name) <+: q → u.tree.get? q = r.tree.get? q ∨
        (q = project.appDir ∨ q = kind.home project) ∧ r.tree.get? q = none ∧
          u.tree.get? q = some .directory := by
  obtain ⟨hadds, -, hdirectory⟩ := DestroyKind.undoes_cases hkind
  have hapart := Generation.apart_of_detected hproject hname g
  obtain ⟨r, p, w, hput, hmodules, hquiet, -⟩ := Generation.write_parts hwrite
  have htable : Accounts options.force s.tree r.tree [(.ofMerge project m, m.changed)] := by
    rw [← hsame.tree]
    exact accounts_putTable hreal hapart.straight_schemaPath (hsame.tree ▸ hs)
      (fun hskip => hsame.tree ▸ schema_there hmerged hskip) hput
  have hr := htable.wrote.closed hs
  have hschema : (r.tree.get? project.schemaPath).isSome = true :=
    htable.present (e := (.ofMerge project m, m.changed)) (by simp) (by simp)
  have hpaths : (g.modules project (.of name) traits fields).map (·.path) = g.paths project name :=
    g.modules_paths project _ traits fields
  obtain ⟨-, entries, hentries, -, haccounts⟩ := accounts_writeModules hreal
    (fun m hm => hapart.straight_path hname (hpaths ▸ List.mem_map_of_mem hm))
    (hpaths ▸ (Generation.paths_apart project name g).imp fun h => h.2) hr hmodules
  refine ⟨r, hput, hr, htable.before fun e he => ?_, fun q hq => ?_⟩
  · cases List.mem_singleton.mp he
    intro hpre
    exact hproject.appDir_not_prefix [Project.schemaFile]
      ((kind.appDir_prefix_directory project _).trans hpre)
  · rw [hquiet.tree]
    refine kind.beside_modules hproject hname haccounts.wrote (fun f hf => ?_) hr hschema hq
    obtain ⟨e, he, rfl⟩ := List.mem_map.mp hf
    have hmem : e.1 ∈ (g.modules project (.of name) traits fields).map Product.ofModule :=
      hentries ▸ List.mem_map_of_mem (List.mem_filter.mp he).1
    obtain ⟨n, hn, heq⟩ := List.mem_map.mp hmem
    obtain ⟨place, -, hplace⟩ := Generation.mem_modules hn
    show _ <+: e.1.path
    rw [← heq]
    show _ <+: n.path
    rw [← hplace, hdirectory]
    exact List.prefix_append _ _

/-- After such a run the directory is there, though it was not before, and it does not hold the
working directory. -/
theorem generated_there (hproject : project.Detected) {kind : DestroyKind} {g : Generation}
    (hkind : kind.undoes g = true) {options : Options} (hreal : options.dryRun = false)
    (hname : validateModelName name = .ok ()) {fields : List Field} {m : Schema.Merge}
    {traits : TableOptions} {o : Outcome} {s t u : Session} (hs : s.Sound)
    (hfree : s.tree.exists? (kind.directory project (.of name)) = false) (hsame : s.SameFiles t)
    (hwrite : g.write project options.toWriteOptions (.of name) fields (some m) traits t = .ok o u) :
    (∃ place, u.tree.locate (kind.directory project (.of name)) = .found place .directory) ∧
      s.tree.get? (kind.directory project (.of name)) = none ∧ u.directory.isSome = true ∧
      ∀ d, u.directory = some d → ¬ kind.directory project (.of name) <+: d := by
  obtain ⟨-, hplaces, hdirectory⟩ := DestroyKind.undoes_cases hkind
  have hpath := kind.straight_directory hproject hname
  obtain ⟨-, -, hshows, r, htable, hgrew⟩ := Generation.grew_write hreal hwrite
  obtain ⟨_, r', hput, hnil⟩ := returns_bind htable
  cases hnil
  have hgrown : s.Grew _ u :=
    ((Session.Grew.of_sameFiles hsame).trans
      ((Generation.grew_putTable hreal hput).1.weaken (List.subset_append_left _ _))).trans
      (hgrew.weaken (List.subset_append_right _ _))
  obtain ⟨place, hplace⟩ := List.exists_mem_of_ne_nil _ hplaces
  have hshown := hshows place hplace
  rw [hdirectory] at hshown
  obtain ⟨found, hfound⟩ := probe_front (g.places_steps place hplace).2.1 hshown.there
  have hnone := none_of_missing hs.closed hgrown.tree hpath hfree ⟨found, _, hfound⟩
  refine ⟨⟨found, hfound⟩, hnone, hshown.directory, fun d hd hpre => ?_⟩
  rw [hgrown.directory] at hd
  have hdir := hs.standing d hd
  rw [hs.closed.none_below hnone hpre] at hdir
  cases hdir

/-- Removing a directory that was not there leaves what was there, and what came to be beside it. -/
theorem erased_beside {t u : Tree} (ht : t.Closed) {directory : Path}
    (hnone : t.get? directory = none) {new : Path → Prop}
    (hbeside : ∀ q, ¬ directory <+: q → u.get? q = t.get? q ∨
      new q ∧ t.get? q = none ∧ u.get? q = some .directory) (q : Path) :
    (u.erase directory).get? q = t.get? q ∨
      new q ∧ t.get? q = none ∧ (u.erase directory).get? q = some .directory := by
  by_cases hq : directory <+: q
  · have hbelow : t.get? q = none := ht.none_below hnone hq
    have hfile : t.get? q ≠ some .directory := by simp [hbelow]
    exact .inl ((get?_erase_below hq (isAbove_eq_false hfile)).trans hbelow.symm)
  · rw [get?_erase hq]
    exact hbeside q hq

/-- Destroying takes generating back. Where the directory of a model was not there before, destroying
it removes all that a command generated besides the table: the files are those that adding the table
alone would have left, but for the app directory and the home of the kind, which may be new and are
empty then. -/
theorem destroy_undoes (project : Project) (hproject : project.Detected) (kind : DestroyKind)
    (g : Generation) (hkind : kind.undoes g = true) (name : String) (options : Options)
    (hreal : options.dryRun = false) (destroyOptions : WriteOptions)
    (hdestroy : destroyOptions.dryRun = false) (s : Session) (hs : s.Sound)
    (hfree : s.tree.exists? (kind.directory project (.of name)) = false) (o : Outcome)
    (h : value (g.run project options name) s = .ok o) :
    let u := after (g.run project options name) s
    let destroyed := destroy project destroyOptions kind.name name
    let model := Generation.run project options name (.model g.definitions)
    value destroyed u = .ok true ∧ (∃ p, value model s = .ok p) ∧
      ∀ q, (after destroyed u).tree.get? q = (after model s).tree.get? q ∨
        (q = project.appDir ∨ q = kind.home project) ∧ (after model s).tree.get? q = none ∧
          (after destroyed u).tree.get? q = some .directory ∧
          ∀ r, q <+: r → r ≠ q → r ≠ kind.home project →
            (after destroyed u).tree.get? r = none := by
  intro u destroyed model
  obtain ⟨hadds, hplaces, hdirectory⟩ := DestroyKind.undoes_cases hkind
  have hrun : g.run project options name s = .ok o u := run_eq_ok h
  obtain ⟨fields, merge, traits, t, hprepared, hread, hsame, hwrite⟩ := Generation.run_ok hrun
  obtain ⟨hname, -, -⟩ := Generation.prepare_ok hprepared
  obtain ⟨m, rfl, hmerged⟩ : ∃ m, merge = some m ∧
      value (Generation.mergeTable project options (.of name) fields) s = .ok m := by
    rcases Generation.read_cases hread with ⟨-, -, hm⟩ | ⟨hfalse, -⟩
    · exact hm
    · rw [hadds] at hfalse
      cases hfalse
  obtain ⟨r, hput, hr, hkept, hbeside⟩ :=
    generated_beside hproject hkind hreal hname hs.closed hmerged hsame hwrite
  obtain ⟨hthere, hnone, hstands, hoff⟩ :=
    generated_there hproject hkind hreal hname hs hfree hsame hwrite
  obtain ⟨v, hmodel, hlike⟩ := Generation.model_run hprepared hmerged hsame hput
  obtain ⟨w, hdestroyed, herased⟩ := destroy_run hproject hname hdestroy hthere hstands hoff
  have hmodelTree : (after model s).tree = r.tree := by
    rw [show after model s = v from after_eq hmodel]
    exact hlike.tree.symm
  have hafter : (after destroyed u).tree = u.tree.erase (kind.directory project (.of name)) := by
    rw [show after destroyed u = w from after_eq hdestroyed]
    exact herased
  rw [hmodelTree, hafter]
  have hwhere := erased_beside hr (hkept.trans hnone) hbeside
  refine ⟨value_eq_ok hdestroyed, ⟨_, value_eq_ok hmodel⟩, fun q => ?_⟩
  rcases hwhere q with hsame | ⟨hstep, hnew, hdir⟩
  · exact .inl hsame
  · refine .inr ⟨hstep, hnew, hdir, fun x hpre hne hhome => ?_⟩
    rcases hwhere x with hx | ⟨hx, -, -⟩
    · exact hx.trans (hr.none_below hnew hpre)
    · -- the app directory is not below the home, so nothing new is below a new directory
      have happ : x = project.appDir := hx.resolve_right hhome
      rcases hstep with hstep | hstep
      · exact absurd (happ.trans hstep.symm) hne
      · have hle := (kind.appDir_prefix_home project).eq_of_length_le (hstep ▸ happ ▸ hpre.length_le)
        exact absurd (happ.trans hle) hhome

theorem destroy_undoes_plain :
    let api := Generation.run plainProject {} "Post" (.api ["title"])
    let model := Generation.run plainProject {} "Post" (.model ["title"])
    let destroyed := destroy plainProject {} "api" "Post"
    plainSession.Sound ∧ value destroyed (after api plainSession) = .ok true ∧
      (∃ p, value model plainSession = .ok p) ∧
      (after destroyed (after api plainSession)).tree.get? ["db", "schema.ts"] =
        (after model plainSession).tree.get? ["db", "schema.ts"] := by
  intro api model destroyed
  have hsound : plainSession.Sound := by
    refine ⟨by decide, fun d hd => ?_⟩
    cases hd
    rfl
  have hfree : plainSession.tree.exists?
      (DestroyKind.api.directory plainProject (.of "Post")) = false := by
    decide +kernel
  have hwritten : (value api plainSession).map (fun o => o.written.length) = .ok 3 := by
    decide +kernel
  obtain ⟨o, hrun, -⟩ := map_ok hwritten
  obtain ⟨hremoved, hmodel, htree⟩ := destroy_undoes plainProject plainProject_detected .api
    (.api ["title"]) rfl "Post" {} rfl {} rfl plainSession hsound hfree o hrun
  have hother : ["db", "schema.ts"] ≠ plainProject.appDir ∧
      ["db", "schema.ts"] ≠ DestroyKind.api.home plainProject := by
    decide
  refine ⟨hsound, hremoved, hmodel, (htree _).resolve_right fun hnew => ?_⟩
  exact hnew.1.elim hother.1 hother.2

end Command
end SchemaScaffold
