import SchemaScaffold.Proofs.Command.Places
import SchemaScaffold.Proofs.Command.Readings

/-!
Dry runs beside real runs. A dry run writes nothing, so the two see different trees from the first
file on; what has to be shown is that no file written changes the answer to a later question. That
holds of files none of which lies on the way to another.
-/

namespace SchemaScaffold

open Naming Generated Generate SchemaScaffold.Tree SchemaScaffold.Path

namespace Command

variable {α β : Type} {P Q S : Session → Session → Prop}

/-- Whenever the one run succeeds, the other does, with the same value. -/
def Follows (P Q : Session → Session → Prop) (dry real : Command α) : Prop :=
  ∀ s t, P s t → ∀ a u, real t = .ok a u → ∃ r, dry s = .ok a r ∧ Q r u

/-- Whenever the one run fails with the library's own failure, the other does. -/
def Echoes (P : Session → Session → Prop) (dry real : Command α) : Prop :=
  ∀ s t, P s t → ∀ e, value real t = .error e → e.isOwn = true → value dry s = .error e

theorem Follows.pure (h : ∀ s t, P s t → Q s t) (a : α) : Follows P Q (pure a) (pure a) := by
  intro s t hR b u hrun
  cases hrun
  exact ⟨s, rfl, h s t hR⟩

theorem Follows.bind {x y : Command α} {f g : α → Command β} (hx : Follows P Q x y)
    (hf : ∀ a, Follows Q S (f a) (g a)) : Follows P S (x >>= f) (y >>= g) := by
  intro s t hR b v hrun
  obtain ⟨a, u, hy, hg⟩ := returns_bind hrun
  obtain ⟨r, hr, hQ⟩ := hx s t hR a u hy
  rw [bind_run hr]
  exact hf a r u hQ b v hg

/-- A step that only the real run makes. -/
theorem Follows.behind {x : Command β} {z : Command α} {f : α → Command β}
    (hz : ∀ s t a u, P s t → z t = .ok a u → Q s u) (hf : ∀ a, Follows Q S x (f a)) :
    Follows P S x (z >>= f) := by
  intro s t hR b v hrun
  obtain ⟨a, u, hy, hg⟩ := returns_bind hrun
  exact hf a s u (hz s t a u hR hy) b v hg

theorem Follows.weaken {x y : Command α} (hR : ∀ s t, Q s t → P s t) (h : Follows P S x y) :
    Follows Q S x y :=
  fun s t hQ => h s t (hR s t hQ)

theorem Echoes.bind {x y : Command α} {f g : α → Command β} (hx : Follows P Q x y)
    (ex : Echoes P x y) (ef : ∀ a, Echoes Q (f a) (g a)) : Echoes P (x >>= f) (y >>= g) := by
  intro s t hR e hfail hown
  rcases fails_bind (run_eq_error hfail) with hy | ⟨a, u, hy, hg⟩
  · have hdry := run_eq_error (ex s t hR e (by rw [value, hy]) hown)
    rw [value, run_bind, hdry]
  · obtain ⟨r, hr, hQ⟩ := hx s t hR a u hy
    have := ef a r u hQ e (by rw [value, hg]) hown
    rwa [value, bind_run hr]

/-- A run that does not fail so has nothing to echo. -/
theorem Echoes.of_unrefused {x y : Command α}
    (h : Obeys (fun _ _ => True) (fun e => ¬ e.isOwn = true) y) : Echoes P x y := by
  intro s t _ e hfail hown
  exact absurd hown (h.fails (run_eq_error hfail)).2

/-- The two runs before either has written. -/
structure Twin (s t : Session) : Prop where
  files : s.SameFiles t
  closed : s.tree.Closed

theorem Twin.self {s : Session} (h : s.tree.Closed) : Twin s s := ⟨.rfl, h⟩

theorem Reads.follows {x : Command α} (h : Reads x) : Follows Twin Twin x x := by
  intro s t htwin a u hrun
  have ht : value x t = .ok a := by rw [value, hrun]
  have hs : value x s = .ok a := (h.same s t htwin.files).symm.trans ht
  refine ⟨_, run_eq_ok hs, ?_, ?_⟩
  · exact (h.looks.moves s).symm.trans (htwin.files.trans (h.looks.returns hrun))
  · rw [(h.looks.moves s).tree]
    exact htwin.closed

theorem Reads.echoes {x : Command α} (h : Reads x) : Echoes Twin x x :=
  fun s t htwin _ hfail _ => (h.same s t htwin.files).symm.trans hfail

/-! ## Showing -/

/-- The dry run stands where the real run does, and showing things does not part them. -/
structure Side (P : Session → Session → Prop) : Prop where
  directory : ∀ {s t}, P s t → ∀ d, t.directory = some d → s.directory = some d
  quiet : ∀ {s t s' t' : Session}, P s t → s.SameFiles s' → t.SameFiles t' → P s' t'

theorem Side.say (side : Side P) (m n : String) : Follows P P (say m) (say n) := by
  intro s t h _ u hrun
  cases hrun
  exact ⟨_, rfl, side.quiet h ⟨rfl, rfl, rfl, rfl⟩ ⟨rfl, rfl, rfl, rfl⟩⟩

theorem Side.sayNextSteps (side : Side P) (steps : List String) :
    Follows P P (sayNextSteps steps) (sayNextSteps steps) := by
  refine .bind (side.say _ _) fun _ => ?_
  generalize steps.zipIdx 1 = numbered
  induction numbered with
  | nil => exact .pure (fun _ _ => id) _
  | cons step numbered ih => exact .bind (side.say _ _) fun _ => ih

theorem Side.report (side : Side P) (a b : Status) (path : Path) :
    Follows P P (report a path) (report b path) := by
  intro s t h _ u hrun
  have hu := returns_report hrun
  cases hdir : t.directory with
  | none =>
    obtain ⟨_, _, hwork, -⟩ := returns_bind hrun
    rw [run_workingDirectory_gone hdir] at hwork
    cases hwork
  | some directory =>
    have hs := run_workingDirectory (side.directory h directory hdir)
    refine ⟨_, bind_run hs, side.quiet h ⟨rfl, rfl, rfl, rfl⟩ hu⟩

theorem Twin.side : Side Twin :=
  ⟨fun h _ => by rw [h.files.directory]; exact id,
    fun h hs ht => ⟨hs.symm.trans (h.files.trans ht), hs.tree ▸ h.closed⟩⟩

/-! ## Writing -/

/-- What a real run has written does not show at the paths that are still to be asked for. -/
structure Alike (later : List Path) (s t : Session) : Prop where
  directory : t.directory = s.directory
  closed : t.tree.Closed
  later : ∀ p ∈ later, ∀ there, t.tree.probe p = .ok there → s.tree.probe p = .ok there

theorem Alike.side (later : List Path) : Side (Alike later) :=
  ⟨fun h _ => by rw [h.directory]; exact id, fun h hs ht =>
    ⟨ht.directory.trans (h.directory.trans hs.directory.symm), ht.tree ▸ h.closed,
      fun p hp there => by rw [hs.tree, ht.tree]; exact h.later p hp there⟩⟩

theorem Twin.alike {s t : Session} (h : Twin s t) (later : List Path) : Alike later s t :=
  ⟨h.files.directory, h.files.tree ▸ h.closed, fun p _ there => by rw [h.files.tree]; exact id⟩

/-- A file that is stored is not on the way to the paths that are asked for later. -/
theorem Alike.store {old later : List Path} {s t u : Session} {path : Path} {content : String}
    (h : Alike old s t) (hpath : Straight path) (hrun : store path content t = .ok () u)
    (hlater : ∀ p ∈ later, p ∈ old ∧ Straight p ∧ ¬ p <+: path) : Alike later s u := by
  obtain ⟨hu, hwrote⟩ := returns_store hpath hrun
  have hdirectory : u.directory = t.directory := by rw [hu]
  refine ⟨hdirectory.trans h.directory, hwrote.closed h.closed, fun p hp there hask => ?_⟩
  obtain ⟨hold, hstraight, hpre⟩ := hlater p hp
  refine h.later p hold there ?_
  exact probe_before h.closed (hwrote.closed h.closed) (fun q => hwrote.keeps_directory) hstraight
    (hwrote.same (by simpa using hpre)) hask

theorem Alike.exists? {later : List Path} {path : Path} (hmem : path ∈ later) :
    Follows (Alike later) (Alike later) (exists? path) (exists? path) := by
  intro s t h there u hrun
  obtain ⟨hthere, rfl⟩ := returns_exists? hrun
  refine ⟨s, ?_, h⟩
  show Command.lift .file (s.tree.probe path) s = _
  rw [h.later path hmem there hthere]
  rfl

variable {dry real : WriteOptions}

/-- A dry write and a real write of a file give the same answer, and leave the two runs alike at the
paths that the file is not on the way to. -/
theorem follows_writeFile (hdry : dry.dryRun = true) (hreal : real.dryRun = false)
    (hforce : dry.force = real.force) {path : Path} (hpath : Straight path) {later : List Path}
    (hlater : ∀ p ∈ later, Straight p ∧ ¬ p <+: path) (content : String) :
    Follows (Alike (path :: later)) (Alike later) (writeFile dry path content)
      (writeFile real path content) := by
  have hweaken : ∀ s t, Alike (path :: later) s t → Alike later s t := fun s t h =>
    ⟨h.directory, h.closed, fun p hp => h.later p (List.mem_cons_of_mem _ hp)⟩
  refine .bind (Alike.exists? (by simp)) fun there => ?_
  simp only [hforce, hdry, hreal, Bool.false_eq_true, ↓reduceIte]
  split
  · exact .bind ((Alike.side _).report _ _ _) fun _ => .pure hweaken _
  · refine .behind (Q := Alike later)
      (fun s t _ u h hstore => Alike.store h hpath hstore fun p hp => ?_) fun _ =>
        .bind ((Alike.side _).report _ _ _) fun _ => .pure (fun _ _ => id) _
    exact ⟨List.mem_cons_of_mem _ hp, hlater p hp⟩

theorem follows_updateFile (hdry : dry.dryRun = true) (hreal : real.dryRun = false) {path : Path}
    (hpath : Straight path) {later : List Path} (hlater : ∀ p ∈ later, Straight p ∧ ¬ p <+: path)
    (content : String) :
    Follows Twin (Alike later) (updateFile dry path content) (updateFile real path content) := by
  refine .bind (Reads.exists? path).follows fun there => ?_
  simp only [hdry, hreal, Bool.false_eq_true, ↓reduceIte]
  refine .behind (Q := Alike later) (fun s t _ u h hstore => ?_) fun _ => (Alike.side _).report _ _ _
  exact (h.alike later).store hpath hstore fun p hp => ⟨hp, hlater p hp⟩

/-- Modules none of which lies on the way to another. -/
theorem follows_writeModules (hdry : dry.dryRun = true) (hreal : real.dryRun = false)
    (hforce : dry.force = real.force) {modules : List Module}
    (hstraight : ∀ m ∈ modules, Straight m.path)
    (hapart : (modules.map (·.path)).Pairwise fun p q => ¬ q <+: p) :
    Follows (Alike (modules.map (·.path))) (Alike []) (writeModules dry modules)
      (writeModules real modules) := by
  have hfiles : ∀ f : Module → Bool → File,
      Follows (Alike (modules.map (·.path))) (Alike [])
        (modules.mapM fun m => return f m (← writeFile dry m.path m.content))
        (modules.mapM fun m => return f m (← writeFile real m.path m.content)) := by
    intro f
    induction modules with
    | nil => exact .pure (fun _ _ => id) _
    | cons m modules ih =>
      obtain ⟨hfirst, hrest⟩ := List.pairwise_cons.mp hapart
      rw [List.mapM_cons, List.mapM_cons]
      refine .bind (.bind (follows_writeFile hdry hreal hforce (hstraight m (by simp)) (fun p hp => ?_)
        m.content) fun _ => .pure (fun _ _ => id) _) fun _ =>
          .bind (ih (fun n hn => hstraight n (List.mem_cons_of_mem _ hn)) hrest) fun _ =>
            .pure (fun _ _ => id) _
      obtain ⟨n, hn, rfl⟩ := List.mem_map.mp hp
      exact ⟨hstraight n (List.mem_cons_of_mem _ hn), hfirst _ hp⟩
  exact .bind (hfiles fun m written => { path := m.path, template := some m.template, written })
    fun _ => .pure (fun _ _ => id) _

end Command

namespace Generation

open Command

theorem follows_opening {P : Session → Session → Prop} (side : Side P) (dry real : WriteOptions)
    (names : ModelNames) (g : Generation) :
    Follows P P (g.opening dry names) (g.opening real names) := by
  cases g <;> first | exact side.say _ _ | exact .pure (fun _ _ => id) _

theorem follows_closing {P : Session → Session → Prop} (side : Side P) (project : Project)
    (names : ModelNames) (g : Generation) :
    Follows P P (g.closing project names) (g.closing project names) := by
  cases g <;> first | exact side.sayNextSteps _ | exact .pure (fun _ _ => id) _

variable {project : Project} {name : String} {g : Generation} {dry real : WriteOptions}

/-- Writing, the real run never meets a file of its own that the dry run does not know of. -/
theorem follows_write (hdry : dry.dryRun = true) (hreal : real.dryRun = false)
    (hforce : dry.force = real.force) (hname : validateModelName name = .ok ())
    (hapart : g.Apart project name) (fields : List Field) (merge : Option Schema.Merge)
    (traits : TableOptions) :
    Follows Twin (Alike []) (g.write project dry (.of name) fields merge traits)
      (g.write project real (.of name) fields merge traits) := by
  have hpaths : (g.modules project (.of name) traits fields).map (·.path) = g.paths project name :=
    g.modules_paths project _ traits fields
  have htable : Follows Twin (Alike (g.paths project name))
      (merge.toList.forM (putTable project dry (.of name)))
      (merge.toList.forM (putTable project real (.of name))) := by
    cases merge with
    | none => exact .pure (fun _ _ h => h.alike _) _
    | some merge =>
      refine .bind ?_ fun _ => .pure (fun _ _ => id) _
      unfold putTable
      split
      · exact follows_updateFile hdry hreal hapart.straight_schemaPath (fun p hp =>
          ⟨hapart.straight_path hname hp, hapart.not_above_schema hp⟩) _
      · exact .weaken (fun _ _ h => h.alike _) <|
          .bind ((Alike.side _).report _ _ _) fun _ => (Alike.side _).say _ _
  refine .bind htable fun _ => .bind (Q := Alike []) ?_ fun _ =>
    .bind (follows_closing (Alike.side _) _ _ _) fun _ => .pure (fun _ _ => id) _
  rw [← hpaths]
  refine follows_writeModules hdry hreal hforce (fun m hm => ?_) ?_
  · exact hapart.straight_path hname (hpaths ▸ List.mem_map_of_mem hm)
  · rw [hpaths]
    exact (paths_apart project name g).imp fun h => h.2

theorem follows_run (options : Options) (hapart : g.Apart project name) :
    Follows Twin (Alike []) (g.run project { options with dryRun := true } name)
      (g.run project { options with dryRun := false } name) := by
  rw [run_eq, run_eq]
  intro s t htwin o u hrun
  obtain ⟨⟨names, fields⟩, t', hprepare, hrest⟩ := returns_bind hrun
  obtain ⟨hprepared, rfl⟩ := returns_lift hprepare
  obtain ⟨hname, -, rfl⟩ := prepare_ok hprepared
  have hdry : Command.prepare { options with dryRun := true } name g.definitions s =
      .ok (ModelNames.of name, fields) s := by
    rw [Command.prepare, show Generate.prepare { options with dryRun := true } name g.definitions =
      .ok (ModelNames.of name, fields) from hprepared]
    rfl
  rw [bind_run hdry]
  refine Follows.bind (follows_opening Twin.side _ _ _ _) (fun _ => ?_) s t htwin o u hrest
  refine .bind (reads_read _ _ _ _ _).follows fun (merge, traits) => ?_
  exact follows_write (by rfl) (by rfl) (by rfl) hname hapart fields merge traits

theorem echoes_run (options : Options) :
    Echoes Twin (g.run project { options with dryRun := true } name)
      (g.run project { options with dryRun := false } name) := by
  have hown := unrefused (fun e => e.isOwn = true) (fun _ => nofun) nofun
  rw [run_eq, run_eq]
  refine .bind (Reads.lift _ _).follows (Reads.lift _ _).echoes fun _ => ?_
  refine .bind (follows_opening Twin.side _ _ _ _) (.of_unrefused (obeys_opening hown _ _ _)) fun _ => ?_
  refine .bind (reads_read _ _ _ _ _).follows (reads_read _ _ _ _ _).echoes fun _ => ?_
  exact .of_unrefused (obeys_write hown (.inr fun _ _ => trivial) _ _ _ _ _ _)

theorem dryRun_looks (options : Options) (hdry : options.dryRun = true) :
    Obeys Session.SameFiles (fun _ => True) (g.run project options name) := by
  rw [run_eq]
  exact looking.bind (looking.prepare (fun _ => trivial) _ _ _) fun _ =>
    looking.bind (obeys_opening looking _ _ _) fun _ =>
      looking.bind (obeys_read looking (fun _ => trivial) _ _ _ _ _) fun _ =>
        obeys_write looking (.inl hdry) _ _ _ _ _ _

end Generation

namespace Command

/-! ## Destroying -/

/-- The dry run stands where the real run does, if that still stands anywhere. -/
def Standing (s t : Session) : Prop := ∀ d, t.directory = some d → s.directory = some d

theorem Standing.side : Side Standing :=
  ⟨id, fun h hs ht d => by rw [ht.directory, hs.directory]; exact h d⟩

theorem Twin.standing {s t : Session} (h : Twin s t) : Standing s t := Twin.side.directory h

theorem follows_deleteDirectory {dry real : WriteOptions} (hdry : dry.dryRun = true)
    (hreal : real.dryRun = false) (path : Path) :
    Follows Twin Standing (deleteDirectory dry path) (deleteDirectory real path) := by
  refine .bind (Reads.exists? path).follows fun there => ?_
  simp only [hdry, hreal, Bool.false_eq_true, ↓reduceIte]
  split
  · exact .weaken (fun _ _ => Twin.standing)
      (.bind (Standing.side.report _ _ _) fun _ => .pure (fun _ _ => id) _)
  · refine .behind (Q := Standing) (fun s t _ u htwin herase d hd => ?_) fun _ =>
      .bind (Standing.side.report _ _ _) fun _ => .pure (fun _ _ => id) _
    exact htwin.standing d (returns_erase herase d hd)

variable {project : Project} {kind name : String}

theorem follows_destroy (options : WriteOptions) :
    Follows Twin Standing (destroy project { options with dryRun := true } kind name)
      (destroy project { options with dryRun := false } kind name) := by
  refine .bind (Reads.lift _ _).follows fun prepared => ?_
  exact .bind (Twin.side.say _ _) fun _ => .bind (follows_deleteDirectory rfl rfl _) fun _ =>
    .bind (Standing.side.say _ _) fun _ => .bind (Standing.side.say _ _) fun _ =>
      .pure (fun _ _ => id) _

theorem echoes_destroy (options : WriteOptions) :
    Echoes Twin (destroy project { options with dryRun := true } kind name)
      (destroy project { options with dryRun := false } kind name) := by
  have hown := unrefused (fun e => e.isOwn = true) (fun _ => nofun) nofun
  refine .bind (Reads.lift _ _).follows (Reads.lift _ _).echoes fun prepared => ?_
  exact .of_unrefused (hown.destroyPrepared (.inr (hown.erase _)))

theorem dryDestroy_looks (options : WriteOptions) (hdry : options.dryRun = true) :
    Obeys Session.SameFiles (fun _ => True) (destroy project options kind name) :=
  looking.bind (looking.lift (fun _ => trivial) _) fun _ => looking.destroyPrepared (.inl hdry)

/-- A dry run leaves the files alone and tells what the run would do: the same outcome if the run
succeeds, and the same failure if that is the library's own. For generated code the directories of
the project must not be in each other's way, as detection never puts them. -/
theorem dryRun_simulates (project : Project) (s : Session) (hs : s.tree.Closed) :
    (∀ (options : Options) name (g : Generation),
      let dry := g.run project { options with dryRun := true } name
      let real := g.run project { options with dryRun := false } name
      (after dry s).tree = s.tree ∧
        (project.Detected ∨ g.Apart project name → ∀ o, value real s = .ok o → value dry s = .ok o) ∧
        ∀ e, e.isOwn = true → value real s = .error e → value dry s = .error e) ∧
    ∀ (options : WriteOptions) kind name,
      let dry := destroy project { options with dryRun := true } kind name
      let real := destroy project { options with dryRun := false } kind name
      (after dry s).tree = s.tree ∧ (∀ there, value real s = .ok there → value dry s = .ok there) ∧
        ∀ e, e.isOwn = true → value real s = .error e → value dry s = .error e := by
  have htwin : Twin s s := .self hs
  refine ⟨fun options name g => ⟨?_, fun hproject o ho => ?_, fun e hown he => ?_⟩,
    fun options kind name => ⟨?_, fun there hthere => ?_, fun e hown he => ?_⟩⟩
  · exact ((Generation.dryRun_looks _ rfl).moves s).tree
  · have hreal := run_eq_ok ho
    have hapart : g.Apart project name :=
      hproject.elim (fun h => Generation.apart_of_detected h (Generation.accepted_of_run hreal) g) id
    obtain ⟨r, hr, -⟩ := Generation.follows_run options hapart s s htwin o _ hreal
    rw [value, hr]
  · exact Generation.echoes_run options s s htwin e he hown
  · exact ((dryDestroy_looks _ rfl).moves s).tree
  · obtain ⟨r, hr, -⟩ := follows_destroy options s s htwin there _ (run_eq_ok hthere)
    rw [value, hr]
  · exact echoes_destroy options s s htwin e he hown

/-- A project below `src` in which one page of a model is there already. -/
def startedSession : Session where
  base := "/project"
  tree := { entries := [(["src"], .directory), (["src", "app"], .directory),
    (["src", "app", "posts"], .directory), (["src", "app", "posts", "page.tsx"], .file (.text ""))] }

theorem dryRun_simulates_started :
    let project : Project := {
      root := [], layout := { useSrc := true, dbFolder := "src/db", appFolder := "src/app" }
      dialect := .sqlite }
    (∃ o, value (Generation.run project {} "Post" (.scaffold ["title"])) startedSession = .ok o ∧
      o.skipped = [["src", "app", "posts", "page.tsx"]] ∧
      value (Generation.run project { dryRun := true } "Post" (.scaffold ["title"])) startedSession =
        .ok o) ∧
    value (Generation.run project { dryRun := true } "Post" (.pages ["title:txt"])) startedSession =
      .error (.field (.typeUnknown "txt")) ∧
    value (destroy project { dryRun := true } "scaffold" "Post") startedSession = .ok true ∧
    value (destroy project { dryRun := true } "pages" "Post") startedSession = .error (.kind "pages") := by
  intro project
  have hclosed : startedSession.tree.Closed := by decide
  have hdetected : project.Detected := ⟨by decide, startedSession.tree, by decide +kernel⟩
  have hruns : ((value (Generation.run project {} "Post" (.scaffold ["title"])) startedSession).map
      Outcome.skipped) = .ok [["src", "app", "posts", "page.tsx"]] := by
    decide +kernel
  have htype : value (Generation.run project {} "Post" (.pages ["title:txt"])) startedSession =
      .error (.field (.typeUnknown "txt")) := by
    decide +kernel
  have hremoved : value (destroy project {} "scaffold" "Post") startedSession = .ok true := by
    decide +kernel
  have hkind : value (destroy project {} "pages" "Post") startedSession = .error (.kind "pages") := by
    decide +kernel
  obtain ⟨hrun, hdestroy⟩ := dryRun_simulates project startedSession hclosed
  cases hreal : value (Generation.run project {} "Post" (.scaffold ["title"])) startedSession with
  | error e =>
    rw [hreal] at hruns
    cases hruns
  | ok o =>
    rw [hreal] at hruns
    refine ⟨⟨o, rfl, Except.ok.inj hruns, ?_⟩, ?_, ?_, ?_⟩
    · exact (hrun {} "Post" (.scaffold ["title"])).2.1 (.inl hdetected) o hreal
    · exact (hrun {} "Post" (.pages ["title:txt"])).2.2 _ rfl htype
    · exact (hdestroy {} "scaffold" "Post").2.1 true hremoved
    · exact (hdestroy {} "pages" "Post").2.2 _ rfl hkind

/-- Where the database directory stands at the place of a module, storing the schema makes a
directory there, and where a path goes through a directory that is not there yet and up again, making
it brings other files into view. -/
theorem dryRun_differs :
    let crossed : Project := {
      root := [], layout := { dbFolder := "app/posts/actions.ts" }, dialect := .sqlite }
    let doubled : Project := { root := [], layout := { appFolder := "web/.." }, dialect := .sqlite }
    let s : Session := { base := "/project", tree := .empty }
    let t : Session := { base := "/project", tree := { entries := [
      (["posts"], .directory), (["posts", "page.tsx"], .file (.text ""))] } }
    ((value (Generation.run crossed {} "Post" (.resource [])) s).map Outcome.skipped =
        .ok [["app", "posts", "actions.ts"]] ∧
      (value (Generation.run crossed { dryRun := true } "Post" (.resource [])) s).map
        Outcome.skipped = .ok []) ∧
    (value (Generation.run doubled {} "Post" (.scaffold [])) t).map Outcome.skipped =
        .ok [["web", "..", "posts", "page.tsx"]] ∧
      (value (Generation.run doubled { dryRun := true } "Post" (.scaffold [])) t).map
        Outcome.skipped = .ok [] := by
  decide +kernel

end Command
end SchemaScaffold
