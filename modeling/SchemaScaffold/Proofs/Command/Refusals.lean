import SchemaScaffold.Command.Destroy
import SchemaScaffold.Proofs.Command.Generations
import SchemaScaffold.Proofs.Command.Setups

/-!
Refusals. A command that fails because of its request, or because the schema file cannot be taken
apart or read as text, has written nothing and started nothing: it looks before it writes, and
nothing that it does after that is refused.
-/

namespace SchemaScaffold

open Naming Generated Generate

/-- A failure of the request or of the schema file. -/
def Failure.isRefusal (e : Failure) : Bool := e.isOwn || e == .undecodable

namespace Command

variable {α β : Type}

/-- A command that, if it fails so, leaves the files alone. -/
def Spares (refused : Failure → Prop) (x : Command α) : Prop :=
  ∀ s e, value x s = .error e → refused e → s.SameFiles (after x s)

/-- The law of a command that only looks. -/
theorem looking : Law Session.SameFiles fun _ => True := ⟨id, .trans, fun _ => trivial, trivial⟩

/-- The law of a command that is not refused. -/
theorem unrefused (refused : Failure → Prop) (hfile : ∀ e, ¬ refused (.file e))
    (hgone : ¬ refused .directoryGone) : Law (fun _ _ => True) fun e => ¬ refused e :=
  ⟨fun _ => trivial, fun _ _ => trivial, hfile, hgone⟩

variable {refused : Failure → Prop}

theorem Spares.of_looking {x : Command α} (h : Obeys Session.SameFiles (fun _ => True) x) :
    Spares refused x :=
  fun s _ _ _ => h.moves s

theorem Spares.of_unrefused {x : Command α} (h : Obeys (fun _ _ => True) (fun e => ¬ refused e) x) :
    Spares refused x := by
  intro s e hfail hrefused
  exact absurd hrefused (h.fails (run_eq_error hfail)).2

/-- What was only looked at before may be forgotten. -/
theorem Spares.bind {x : Command α} {f : α → Command β}
    (hx : Obeys Session.SameFiles (fun _ => True) x) (hf : ∀ a, Spares refused (f a)) :
    Spares refused (x >>= f) := by
  intro s e hfail hrefused
  rcases fails_bind (run_eq_error hfail) with hfirst | ⟨a, t, hok, hrest⟩
  · exact (hx.fails hfirst).1
  · have ht := hf a t e (by rw [value, hrest]) hrefused
    rw [after, hrest] at ht
    exact (hx.returns hok).trans ht

theorem Law.prepare {move : Session → Session → Prop} {may : Failure → Prop} (law : Law move may)
    (hmay : ∀ e, may e) (options : Options) (name : String) (definitions : List String) :
    Obeys move may (prepare options name definitions) :=
  law.lift hmay _

theorem Law.writeModules {move : Session → Session → Prop} {may : Failure → Prop} (law : Law move may)
    {options : WriteOptions} (hedits : options.dryRun = true ∨ Edits move) (modules : List Module) :
    Obeys move may (writeModules options modules) :=
  law.bind (law.mapM (fun _ => law.bind (law.writeFile hedits _ _) fun _ => law.pure _) _) fun _ =>
    law.pure _

theorem Law.tableTraits {move : Session → Session → Prop} {may : Failure → Prop} (law : Law move may)
    (hmay : ∀ e, may e) (project : Project) (options : Options) (names : ModelNames) :
    Obeys move may (tableTraits project options names) := by
  refine law.bind (law.readText? (hmay _) _) fun source => ?_
  cases source with
  | none => exact law.pure _
  | some source =>
    refine law.bind (law.lift (fun _ => hmay _) _) fun block => ?_
    cases block with
    | some block => exact law.pure _
    | none => exact law.pure _

theorem Law.erase {may : Failure → Prop} (law : Law (fun _ _ => True) may) (path : Path) :
    Obeys (fun _ _ => True) may (Command.erase path) :=
  law.bind law.get fun _ => law.bind (law.lift law.file _) fun _ => fun _ => trivial

theorem Law.destroyPrepared {move : Session → Session → Prop} {may : Failure → Prop}
    (law : Law move may) {options : WriteOptions} {project : Project} {kind : DestroyKind}
    {names : ModelNames} (herase : options.dryRun = true ∨
      Obeys move may (Command.erase (kind.directory project names))) :
    Obeys move may (destroyPrepared project options kind names) := by
  refine law.bind (law.say _) fun _ => law.bind ?_ fun _ => law.bind (law.say _) fun _ =>
    law.bind (law.say _) fun _ => law.pure _
  refine law.bind (law.exists? _) fun _ => .ite (law.bind (law.report _ _) fun _ => law.pure _) ?_
  rcases herase with hdry | herase
  · rw [if_pos hdry]
    exact law.bind (law.report _ _) fun _ => law.pure _
  · exact .ite (law.bind (law.report _ _) fun _ => law.pure _)
      (law.bind herase fun _ => law.bind (law.report _ _) fun _ => law.pure _)

end Command

namespace Generation

open Command

variable {move : Session → Session → Prop} {may : Failure → Prop}

theorem obeys_opening (law : Law move may) (options : WriteOptions) (names : ModelNames)
    (g : Generation) : Obeys move may (g.opening options names) := by
  cases g <;> first | exact law.say _ | exact law.pure _

theorem obeys_closing (law : Law move may) (project : Project) (names : ModelNames)
    (g : Generation) : Obeys move may (g.closing project names) := by
  have hsteps : ∀ steps, Obeys move may (sayNextSteps steps) := fun _ =>
    law.bind (law.say _) fun _ => law.forM (fun _ => law.say _) _
  cases g <;> first | exact hsteps _ | exact law.pure _

theorem obeys_mergeTable (law : Law move may) (hmay : ∀ e, may e) (project : Project)
    (options : Options) (names : ModelNames) (fields : List Field) :
    Obeys move may (mergeTable project options names fields) :=
  law.bind (law.lift (fun _ => hmay _) _) fun _ => law.bind (law.readText? (hmay _) _) fun _ =>
    law.lift (fun _ => hmay _) _

theorem obeys_putTable (law : Law move may) {options : WriteOptions}
    (hedits : options.dryRun = true ∨ Edits move) (project : Project) (names : ModelNames)
    (merge : Schema.Merge) : Obeys move may (putTable project options names merge) :=
  .ite (law.updateFile hedits _ _) (law.bind (law.report _ _) fun _ => law.say _)

theorem obeys_read (law : Law move may) (hmay : ∀ e, may e) (project : Project) (options : Options)
    (names : ModelNames) (fields : List Field) (g : Generation) :
    Obeys move may (g.read project options names fields) := by
  refine .ite (law.bind (obeys_mergeTable law hmay _ _ _ _) fun _ => law.pure _) ?_
  refine law.bind ?_ fun _ => law.pure _
  cases g <;> first | exact law.pure _ | exact law.tableTraits hmay _ _ _

theorem obeys_write (law : Law move may) {options : WriteOptions}
    (hedits : options.dryRun = true ∨ Edits move) (project : Project) (names : ModelNames)
    (fields : List Field) (merge : Option Schema.Merge) (traits : TableOptions) (g : Generation) :
    Obeys move may (g.write project options names fields merge traits) :=
  law.bind (law.forM (fun _ => obeys_putTable law hedits _ _ _) _) fun _ =>
    law.bind (law.writeModules hedits _) fun _ =>
      law.bind (obeys_closing law _ _ _) fun _ => law.pure _

/-- The last reading of a command comes before its first writing. -/
theorem spares_run (project : Project) (options : Options) (name : String) (g : Generation) :
    Spares (fun e => e.isRefusal = true) (g.run project options name) := by
  have hwrite := unrefused (fun e => e.isRefusal = true) (fun _ => nofun) nofun
  rw [run_eq]
  exact .bind (looking.prepare (fun _ => trivial) _ _ _) fun _ =>
    .bind (obeys_opening looking _ _ _) fun _ =>
      .bind (obeys_read looking (fun _ => trivial) _ _ _ _ _) fun _ =>
        .of_unrefused (obeys_write hwrite (.inr fun _ _ => trivial) _ _ _ _ _ _)

end Generation

namespace Command

theorem spares_destroy (project : Project) (options : WriteOptions) (kind name : String) :
    Spares (fun e => e.isRefusal = true) (destroy project options kind name) := by
  have hwrite := unrefused (fun e => e.isRefusal = true) (fun _ => nofun) nofun
  exact .bind (looking.lift (fun _ => trivial) _) fun _ =>
    .of_unrefused (hwrite.destroyPrepared (.inr (hwrite.erase _)))

theorem spares_init (root : Path) (request : SetupRequest) :
    Spares (fun e => e.isOwn = true) (init root request) := by
  have hset := unrefused (fun e => e.isOwn = true) (fun _ => nofun) nofun
  have hmay : Lenient fun e => ¬ e.isOwn = true := fun e he => by simp [he]
  have hlenient : Lenient fun _ => True := fun _ _ => trivial
  have hsetUp : ∀ options, Spares (fun e => e.isOwn = true) (setUp root options) := fun options =>
    .of_unrefused (hset.setUp hmay (.inr ⟨fun _ _ => trivial, fun _ _ => trivial⟩) _)
  unfold init
  split
  · refine .bind ?_ hsetUp
    exact looking.bind (looking.lift (fun _ => trivial) _) fun _ =>
      looking.bind (looking.lift (fun _ => trivial) _) fun _ =>
        looking.bind (looking.databaseFolder hlenient _) fun _ => looking.pure _
  · split
    · exact .of_looking (looking.throw trivial)
    · refine .bind (looking.askSetup hlenient _) fun options => ?_
      cases options with
      | none => exact .of_looking (looking.pure _)
      | some options => exact hsetUp _

/-- A command that is refused has touched no file and started nothing. Generating and destroying
code are refused for the request, the schema text, or a schema file that holds no text; a setup is
refused for its request. -/
theorem refusal_touches_nothing (s : Session) (e : Failure) :
    (∀ project options name (g : Generation), value (g.run project options name) s = .error e →
      e.isRefusal = true → (after (g.run project options name) s).tree = s.tree ∧
        (after (g.run project options name) s).started = s.started) ∧
    (∀ project options kind name, value (destroy project options kind name) s = .error e →
      e.isRefusal = true → (after (destroy project options kind name) s).tree = s.tree ∧
        (after (destroy project options kind name) s).started = s.started) ∧
    ∀ root request, value (init root request) s = .error e → e.isOwn = true →
      (after (init root request) s).tree = s.tree ∧
        (after (init root request) s).started = s.started := by
  have hsame : ∀ {t : Session}, s.SameFiles t → t.tree = s.tree ∧ t.started = s.started :=
    fun h => ⟨h.tree, h.started⟩
  refine ⟨fun project options name g h hrefused => ?_, fun project options kind name h hrefused => ?_,
    fun root request h hown => ?_⟩
  · exact hsame (g.spares_run project options name s e h hrefused)
  · exact hsame (spares_destroy project options kind name s e h hrefused)
  · exact hsame (spares_init root request s e h hown)

/-- A schema whose table is never closed, in a project that has nothing else. -/
def unclosedSession : Session where
  base := "/project"
  tree := { entries := [(["db"], .directory), (["db", "schema.ts"],
    .file (.text "export const posts = sqliteTable(\"posts\", \x7b\n"))] }

theorem refusal_touches_nothing_unclosed :
    let project : Project := { root := [], layout := {}, dialect := .sqlite }
    (after (Generation.run project { force := true } "Post" (.scaffold ["title"])) unclosedSession).tree =
        unclosedSession.tree ∧
      (after (destroy project {} "pages" "Post") unclosedSession).tree = unclosedSession.tree ∧
      (after (init [] { dialect := "mysql", driver := "pg" }) unclosedSession).tree =
        unclosedSession.tree := by
  intro project
  have hunclosed : value (Generation.run project { force := true } "Post" (.scaffold ["title"]))
      unclosedSession = .error (.schema (some ["db", "schema.ts"]) .unterminatedBlock) := by
    decide +kernel
  have hkind : value (destroy project {} "pages" "Post") unclosedSession = .error (.kind "pages") := by
    decide +kernel
  have hdriver : value (init [] { dialect := "mysql", driver := "pg" }) unclosedSession =
      .error (.choice (.incompatible "pg" .mysql)) := by
    decide +kernel
  exact ⟨((refusal_touches_nothing _ _).1 _ _ _ _ hunclosed rfl).1,
    ((refusal_touches_nothing _ _).2.1 _ _ _ _ hkind rfl).1,
    ((refusal_touches_nothing _ _).2.2 _ _ hdriver rfl).1⟩

end Command

end SchemaScaffold
