import SchemaScaffold.Proofs.Command.Effects
import SchemaScaffold.Proofs.Schema.Rereading
import SchemaScaffold.Proofs.Session.Growth

/-!
Running a command a second time. The first run leaves each of its files where it looks for it, and
the table where the merge looks for it; so the second run skips them all. Only the server actions
read a file that they do not write, which must not come into view by what they write.
-/

namespace SchemaScaffold

open Naming Generated Generate SchemaScaffold.Tree SchemaScaffold.Path

namespace Command

variable {options : WriteOptions} {modules : List Module} {s t : Session}

theorem grew_mapM (hdry : options.dryRun = false) {files : List File}
    (h : (modules.mapM fun m : Module => do
      let written ← writeFile options m.path m.content
      return ({ path := m.path, template := some m.template, written } : File)) s = .ok files t) :
    (files.map fun f => { f with written := false }) =
        modules.map (fun m => (Product.ofModule m).file false) ∧
      s.Grew (modules.map fun m => name m.path) t ∧ ∀ m ∈ modules, t.Shows m.path := by
  induction modules generalizing s files with
  | nil =>
    cases h
    exact ⟨rfl, .of_sameFiles .rfl, nofun⟩
  | cons m modules ih =>
    rw [List.mapM_cons] at h
    obtain ⟨file, r, hfile, h⟩ := returns_bind h
    obtain ⟨written, _, hwrite, hfile⟩ := returns_bind hfile
    cases hfile
    obtain ⟨others, _, hothers, h⟩ := returns_bind h
    cases h
    obtain ⟨hgrew, hshows⟩ := grew_writeFile hdry hwrite
    obtain ⟨hrest, hgrew', hshows'⟩ := ih hothers
    refine ⟨?_, ?_, ?_⟩
    · rw [List.map_cons, List.map_cons, hrest]
      rfl
    · exact (hgrew.weaken (by simp)).trans (hgrew'.weaken (by simp))
    · exact List.forall_mem_cons.mpr ⟨hshows.grew hgrew', hshows'⟩

/-- However a run dealt with its modules, they are there afterwards. -/
theorem grew_writeModules (hdry : options.dryRun = false) {o : Outcome}
    (h : writeModules options modules s = .ok o t) :
    o.merge = none ∧
      (o.files.map fun f => { f with written := false }) =
        modules.map (fun m => (Product.ofModule m).file false) ∧
      s.Grew (modules.map fun m => name m.path) t ∧ ∀ m ∈ modules, t.Shows m.path := by
  obtain ⟨files, _, hrun, hpure⟩ := returns_bind h
  cases hpure
  exact ⟨rfl, grew_mapM hdry hrun⟩

theorem Idle.mapM (hforce : options.force = false) (h : ∀ m ∈ modules, s.Shows m.path) :
    Idle (modules.mapM fun m : Module => do
      let written ← Command.writeFile options m.path m.content
      return ({ path := m.path, template := some m.template, written } : File)) s
      (modules.map fun m => (Product.ofModule m).file false) := by
  induction modules generalizing s with
  | nil => exact .pure _ s
  | cons m modules ih =>
    obtain ⟨hm, hrest⟩ := List.forall_mem_cons.mp h
    rw [List.mapM_cons]
    refine .bind (.bind (.writeFile hforce hm _) fun _ _ => .pure _ _) fun r hsame => ?_
    have hgrew : s.Grew [] r := .of_sameFiles hsame
    exact .bind (ih fun n hn => (hrest n hn).grew hgrew) fun _ _ => .pure _ _

/-- Modules that are there are skipped. -/
theorem Idle.writeModules (hforce : options.force = false) (h : ∀ m ∈ modules, s.Shows m.path) :
    Idle (writeModules options modules) s
      { files := modules.map fun m => (Product.ofModule m).file false } :=
  .bind (.mapM hforce h) fun _ _ => .pure _ _

/-- What only reads leaves everything alone. -/
theorem Reads.idle {α : Type} {x : Command α} {a : α} (h : Reads x) (hvalue : value x s = .ok a) :
    Idle x s a :=
  ⟨_, run_eq_ok hvalue, h.looks.moves s⟩

theorem Idle.sayNextSteps (steps : List String) (s : Session) : Idle (sayNextSteps steps) s () :=
  .bind (.say _ _) fun t _ => .forM (fun _ _ _ => .say _ _) t

theorem returns_readText?_some {path : Path} {text : String}
    (h : readText? path s = .ok (some text) t) : s.tree.read path = .ok (some text) := by
  obtain ⟨there, _, hask, h⟩ := returns_bind h
  obtain ⟨-, rfl⟩ := returns_exists? hask
  split at h
  · obtain ⟨text', _, hread, h⟩ := returns_bind h
    cases h
    obtain ⟨content, _, hlift, hread⟩ := returns_bind (returns_get hread)
    obtain ⟨hcontent, -⟩ := returns_lift hlift
    cases content with
    | some text'' =>
      cases hread
      exact hcontent
    | none => cases hread
  · cases h

end Command

namespace Generation

open Command

variable {project : Project} {options : Options} {name : String} {names : ModelNames}
  {fields : List Field} {g : Generation} {s t u : Session}

/-! ## The first run -/

/-- No module of a command has the name of the schema file. -/
theorem schemaFile_not_mem (project : Project) (names : ModelNames) (traits : TableOptions)
    (fields : List Field) (g : Generation) :
    Project.schemaFile ∉ (g.modules project names traits fields).map fun m => Path.name m.path := by
  intro hmem
  obtain ⟨m, hm, hname⟩ := List.mem_map.mp hmem
  obtain ⟨place, hplace, hpath⟩ := mem_modules hm
  obtain ⟨-, hne, hlast⟩ := g.places_steps place hplace
  obtain ⟨front, last, rfl⟩ := (List.eq_nil_or_concat place).resolve_left hne
  rw [List.concat_eq_append, List.getLast?_concat] at hlast
  rw [← hpath, List.concat_eq_append, ← List.append_assoc, name_concat] at hname
  exact hlast (congrArg some hname)

/-- What a second run of a command looks for: its modules, and a schema file that shows the table. -/
structure Settled (project : Project) (names : ModelNames) (g : Generation) (u : Session) : Prop where
  modules : ∀ place ∈ g.places, u.Shows (g.directory project names ++ place)
  table : g.addsTable = true → u.Shows project.schemaPath ∧ ∃ text,
    u.tree.read project.schemaPath = .ok (some text) ∧
      Source.tableExists text.toList names.tableName.toList = true

theorem Settled.of_sameFiles (h : g.Settled project names s) (hsame : s.SameFiles t) :
    g.Settled project names t := by
  have hgrew : s.Grew [] t := .of_sameFiles hsame
  refine ⟨fun place hplace => (h.modules place hplace).grew hgrew, fun hadds => ?_⟩
  obtain ⟨hshows, text, hread, hexists⟩ := h.table hadds
  exact ⟨hshows.grew hgrew, text, hsame.tree ▸ hread, hexists⟩

theorem read_cases {merge : Option Schema.Merge} {traits : TableOptions}
    (h : value (g.read project options names fields) s = .ok (merge, traits)) :
    (g.addsTable = true ∧ traits = options.toTableOptions ∧ ∃ m, merge = some m ∧
      value (mergeTable project options names fields) s = .ok m) ∨
    (g.addsTable = false ∧ merge = none ∧ value (g.traits project options names) s = .ok traits) := by
  have hread := run_eq_ok h
  unfold Generation.read at hread
  split at hread
  · rename_i hadds
    obtain ⟨m, t, hmerge, hpure⟩ := returns_bind hread
    cases hpure
    exact .inl ⟨hadds, rfl, m, rfl, value_eq_ok hmerge⟩
  · rename_i hadds
    obtain ⟨_, t, htraits, hpure⟩ := returns_bind hread
    cases hpure
    exact .inr ⟨Bool.eq_false_iff.mpr hadds, rfl, value_eq_ok htraits⟩

theorem mergeTable_ok {m : Schema.Merge}
    (h : value (mergeTable project options names fields) s = .ok m) : ∃ table existing,
      Mapping.standard.table names fields project.dialect options.toTableOptions = .ok table ∧
      value (readText? project.schemaPath) s = .ok existing ∧
      Schema.merge existing table options.force = .ok m := by
  obtain ⟨table, _, hlift, h⟩ := returns_bind (run_eq_ok h)
  obtain ⟨htable, rfl⟩ := returns_lift hlift
  obtain ⟨existing, _, hread, h⟩ := returns_bind h
  obtain ⟨hmerge, -⟩ := returns_lift h
  exact ⟨table, existing, htable, value_eq_ok hread, hmerge⟩

theorem grew_putTable {options : WriteOptions} (hdry : options.dryRun = false) {m : Schema.Merge}
    (h : putTable project options names m s = .ok () t) :
    s.Grew [Project.schemaFile] t ∧ t.directory.isSome = true ∧
      (m.changed = true →
        t.tree.read project.schemaPath = .ok (some (Text.withLineFeeds m.content))) ∧
      (m.changed = false → t.tree = s.tree) := by
  unfold putTable at h
  split at h
  · rename_i hchanged
    obtain ⟨hgrew, hshows, hread⟩ := grew_updateFile hdry h
    rw [Project.schemaPath, name_concat] at hgrew
    refine ⟨hgrew, hshows.directory, fun _ => hread, fun hskip => ?_⟩
    rw [hchanged] at hskip
    cases hskip
  · rename_i hskip
    obtain ⟨_, r, hreport, h⟩ := returns_bind h
    have hsame := (returns_report hreport).trans ((looking.say _).returns h)
    refine ⟨.of_sameFiles hsame, ?_, fun hchanged => absurd hchanged hskip, fun _ => hsame.tree⟩
    rw [hsame.directory]
    exact directory_of_report hreport

/-- The files that a run deals with, as a run names them that skips them. -/
def skippedFiles (project : Project) (names : ModelNames) (g : Generation) : List File :=
  (if g.addsTable then [{ path := project.schemaPath, written := false }] else []) ++
    (g.modules project names {} []).map fun m => (Product.ofModule m).file false

/-- Where the modules of a command stand, and what they are, does not hang on the table. -/
theorem modules_files (project : Project) (names : ModelNames) (traits : TableOptions)
    (fields : List Field) (g : Generation) :
    ((g.modules project names traits fields).map fun m => (Product.ofModule m).file false) =
      (g.modules project names {} []).map fun m => (Product.ofModule m).file false := by
  cases g <;>
    simp only [modules, actionModules, pageModules, routeModules, Product.ofModule, Product.file,
      List.map_append, List.map_cons, List.map_nil]

/-- Writing goes on from what putting the table leaves. -/
theorem grew_write {options : WriteOptions} (hdry : options.dryRun = false)
    {merge : Option Schema.Merge} {traits : TableOptions} {o : Outcome}
    (h : g.write project options names fields merge traits s = .ok o u) :
    o.merge = merge ∧
      (o.files.map fun f => { f with written := false }) =
        (merge.toList.map fun _ => { path := project.schemaPath, written := false }) ++
          (g.modules project names {} []).map (fun m => (Product.ofModule m).file false) ∧
      (∀ place ∈ g.places, u.Shows (g.directory project names ++ place)) ∧
      ∃ r, merge.toList.forM (putTable project options names) s = .ok ⟨⟩ r ∧
        r.Grew ((g.modules project names traits fields).map fun m => Path.name m.path) u := by
  obtain ⟨_, r, htable, h⟩ := returns_bind h
  obtain ⟨p, w, hwrite, h⟩ := returns_bind h
  obtain ⟨_, v, hclosing, h⟩ := returns_bind h
  cases h
  have hsame := (obeys_closing looking _ _ _).returns hclosing
  obtain ⟨hmerge, hfiles, hgrew, hshows⟩ := grew_writeModules hdry hwrite
  rw [modules_files] at hfiles
  refine ⟨?_, ?_, fun place hplace => ?_, r, htable, hgrew.trans (.of_sameFiles hsame)⟩
  · cases merge <;> simp [Outcome.append, tableOutcome, hmerge]
  · cases merge <;> simp [Outcome.append, tableOutcome, hfiles]
  · have hmem : g.directory project names ++ place ∈
        (g.modules project names traits fields).map (·.path) := by
      rw [modules_paths]
      exact List.mem_map_of_mem hplace
    obtain ⟨m, hm, hpath⟩ := List.mem_map.mp hmem
    have hgrown : w.Grew [] u := .of_sameFiles hsame
    exact hpath ▸ (hshows m hm).grew hgrown

/-- The schema file, after a table was put into it, shows the table. -/
theorem shows_putTable {options : Options} (hdry : options.dryRun = false) (hname : validateModelName name = .ok ())
    (hfields : Field.parseAll g.definitions = .ok fields)
    (hvalues : ∀ f ∈ fields, ∀ value ∈ f.enumValues.getD [], Text.occursIn "*/" value = false)
    {m : Schema.Merge} (hmerge : value (mergeTable project options (.of name) fields) s = .ok m)
    (htree : t.tree = s.tree)
    (h : putTable project options.toWriteOptions (.of name) m t = .ok () u) :
    ∃ text, u.tree.read project.schemaPath = .ok (some text) ∧
      Source.tableExists text.toList (ModelNames.of name).tableName.toList = true := by
  obtain ⟨table, existing, htable, hexisting, hmerged⟩ := mergeTable_ok hmerge
  obtain ⟨-, -, hwritten, hskipped⟩ := grew_putTable hdry h
  let d : Definition := {
    model := name, raws := g.definitions, fields, dialect := project.dialect
    options := options.toTableOptions, table, accepted := hname, parsed := hfields, built := htable }
  show ∃ text : String, _ ∧
    Source.tableExists text.toList (ModelNames.of d.model).tableName.toList = true
  rw [d.tableName_eq]
  cases hchanged : m.changed with
  | true => exact ⟨_, hwritten hchanged, Schema.merge_reread d hvalues hmerged hchanged⟩
  | false =>
    rcases Schema.merge_cases hmerged with ⟨hblank, hexists, -, -⟩ | ⟨haction, -⟩
    · cases existing with
      | none => cases hblank
      | some text =>
        refine ⟨text, ?_, hexists⟩
        rw [hskipped hchanged, htree]
        exact returns_readText?_some (run_eq_ok hexisting)
    · rw [Schema.Merge.changed, haction] at hchanged
      exact absurd (Schema.written_ne_skipped existing table) (by simpa using hchanged)

/-- After a run everything is where a second run looks for it. -/
theorem settled_write (hdry : options.dryRun = false)
    (hname : validateModelName name = .ok ()) (hfields : Field.parseAll g.definitions = .ok fields)
    (hvalues : ∀ f ∈ fields, ∀ value ∈ f.enumValues.getD [], Text.occursIn "*/" value = false)
    {merge : Option Schema.Merge} {traits : TableOptions} {o : Outcome}
    (hread : value (g.read project options (.of name) fields) s = .ok (merge, traits))
    (htree : t.tree = s.tree)
    (h : g.write project options.toWriteOptions (.of name) fields merge traits t = .ok o u) :
    g.Settled project (.of name) u ∧ o.merge.isSome = g.addsTable ∧
      (o.files.map fun f => { f with written := false }) = g.skippedFiles project (.of name) := by
  obtain ⟨hmerge, hfiles, hmodules, r, htable, hgrew⟩ := grew_write hdry h
  rcases read_cases hread with ⟨hadds, -, m, rfl, hmerged⟩ | ⟨hadds, rfl, -⟩
  · obtain ⟨_, r', hput, hnil⟩ := returns_bind htable
    cases hnil
    obtain ⟨text, htext, hexists⟩ :=
      shows_putTable hdry hname hfields hvalues hmerged htree hput
    have hschema : Path.name project.schemaPath ∉
        (g.modules project (.of name) traits fields).map fun m => Path.name m.path := by
      rw [Project.schemaPath, name_concat]
      exact g.schemaFile_not_mem project _ traits fields
    have htext := hgrew.tree.read hschema htext
    refine ⟨⟨hmodules, fun _ => ⟨⟨probe_of_read htext, ?_⟩, text, htext, hexists⟩⟩, ?_, ?_⟩
    · rw [hgrew.directory]
      exact (grew_putTable hdry hput).2.1
    · rw [hmerge, hadds]
      rfl
    · rw [hfiles, skippedFiles, if_pos hadds]
      rfl
  · refine ⟨⟨hmodules, fun htrue => absurd htrue (by simp [hadds])⟩, ?_, ?_⟩
    · rw [hmerge, hadds]
      rfl
    · rw [hfiles, skippedFiles, if_neg (by simp [hadds])]
      rfl

/-! ## The second run -/

theorem idle_opening (options : WriteOptions) (names : ModelNames) (g : Generation) (s : Session) :
    Idle (g.opening options names) s ⟨⟩ := by
  cases g <;> first | exact .say _ _ | exact .pure _ _

theorem idle_closing (project : Project) (names : ModelNames) (g : Generation) (s : Session) :
    Idle (g.closing project names) s ⟨⟩ := by
  cases g <;> first | exact .sayNextSteps _ _ | exact .pure _ _

theorem reads_traits (project : Project) (options : Options) (names : ModelNames) (g : Generation) :
    Reads (g.traits project options names) := by
  cases g <;> first | exact .pure _ | exact .tableTraits _ _ _

/-- A checked request always has a table. -/
theorem prepare_built {definitions : List String}
    (h : Generate.prepare options name definitions = .ok (names, fields)) (dialect : Dialect) :
    Mapping.standard.table names fields dialect options.toTableOptions =
      .ok (Mapping.standardTable names fields dialect options.toTableOptions) := by
  obtain ⟨_, -, h⟩ := bind_ok h
  obtain ⟨_, -, h⟩ := bind_ok h
  obtain ⟨_, hdistinct, h⟩ := bind_ok h
  cases h
  rw [Mapping.standard_table, mapError_ok hdistinct]
  rfl

theorem idle_mergeTable (hforce : options.force = false)
    (hbuilt : Mapping.standard.table names fields project.dialect options.toTableOptions =
      .ok (Mapping.standardTable names fields project.dialect options.toTableOptions))
    {text : String} (hread : s.tree.read project.schemaPath = .ok (some text))
    (hexists : Source.tableExists text.toList names.tableName.toList = true) :
    Idle (mergeTable project options names fields) s { content := text, action := .skipped } := by
  generalize htable : Mapping.standardTable names fields project.dialect options.toTableOptions =
    table at hbuilt
  have hthere : Schema.merge (some text) table options.force =
      .ok { content := text, action := .skipped } := by
    rw [hforce]
    refine Schema.merge_there ?_
    rw [← htable, Mapping.standardTable]
    exact hexists
  exact .bind (.lift hbuilt s) fun t hsame => .bind (.readText? (hsame.tree ▸ hread)) fun r _ =>
    .lift hthere r

theorem idle_putTable (options : WriteOptions) {m : Schema.Merge} (hskip : m.changed = false)
    (hdirectory : s.directory.isSome = true) : Idle (putTable project options names m) s ⟨⟩ := by
  rw [putTable, if_neg (by simp [hskip])]
  exact .bind (.report _ _ hdirectory) fun t _ => .say _ t

/-- What was written is not written again. -/
theorem idle_write {options : WriteOptions} (hforce : options.force = false)
    (h : g.Settled project names s) {merge : Option Schema.Merge}
    (hmerge : ∀ m ∈ merge, m.changed = false ∧ s.directory.isSome = true) (traits : TableOptions) :
    Idle (g.write project options names fields merge traits) s
      ((merge.elim { files := [] } (tableOutcome project)).append
        { files := (g.modules project names traits fields).map fun m =>
            (Product.ofModule m).file false }) := by
  have htable : Idle (merge.toList.forM (putTable project options names)) s ⟨⟩ := by
    cases merge with
    | none => exact .pure _ _
    | some m =>
      obtain ⟨hskip, hdirectory⟩ := hmerge m rfl
      exact .bind (idle_putTable options hskip hdirectory) fun t _ => .pure _ t
  refine .bind htable fun t hsame => .bind (.writeModules hforce fun m hm => ?_) fun r _ =>
    .bind (idle_closing _ _ _ r) fun v _ => .pure _ v
  obtain ⟨place, hplace, hpath⟩ := mem_modules hm
  have hgrew : s.Grew [] t := .of_sameFiles hsame
  exact hpath ▸ (h.modules place hplace).grew hgrew

/-- A command that finds its files and its table, and can read what it has to, changes nothing. -/
theorem idle_run (hforce : options.force = false)
    (hprepare : Generate.prepare options name g.definitions = .ok (.of name, fields))
    (h : g.Settled project (.of name) s)
    (htraits : g.addsTable = false → ∃ traits, value (g.traits project options (.of name)) s = .ok traits) :
    ∃ o, Idle (g.run project options name) s o ∧ o.files = g.skippedFiles project (.of name) ∧
      o.merge.map (·.action) = if g.addsTable then some .skipped else none := by
  have hrun : ∀ (merge : Option Schema.Merge) (traits : TableOptions),
      (∀ t, s.SameFiles t → Idle (g.read project options (.of name) fields) t (merge, traits)) →
      (∀ m ∈ merge, m.changed = false ∧ s.directory.isSome = true) →
      Idle (g.run project options name) s
        ((merge.elim { files := [] } (tableOutcome project)).append
          { files := (g.modules project (.of name) traits fields).map fun m =>
              (Product.ofModule m).file false }) := by
    intro merge traits hread hmerge
    rw [run_eq]
    refine .bind (.lift hprepare s) fun t ht => .bind (idle_opening _ _ _ t) fun r hr =>
      .bind (hread r (ht.trans hr)) fun v hv => ?_
    have hsame := (ht.trans hr).trans hv
    exact idle_write hforce (h.of_sameFiles hsame) (fun m hm => hsame.directory ▸ hmerge m hm) traits
  cases hadds : g.addsTable with
  | true =>
    obtain ⟨hshows, text, hread, hexists⟩ := h.table hadds
    have hbuilt := prepare_built hprepare project.dialect
    refine ⟨_, hrun (some { content := text, action := .skipped }) options.toTableOptions
      (fun t hsame => ?_) (fun m hm => ?_), ?_, rfl⟩
    · rw [Generation.read, if_pos hadds]
      exact .bind (idle_mergeTable hforce hbuilt (hsame.tree ▸ hread) hexists) fun r _ => .pure _ r
    · cases hm
      exact ⟨rfl, hshows.directory⟩
    · rw [skippedFiles, if_pos hadds, ← modules_files project (.of name) options.toTableOptions fields]
      rfl
  | false =>
    obtain ⟨traits, htraits⟩ := htraits hadds
    have hreads : Reads (g.traits project options (.of name)) := reads_traits _ _ _ _
    refine ⟨_, hrun none traits (fun t hsame => ?_) (fun m hm => ?_), ?_, rfl⟩
    · rw [Generation.read, if_neg (by simp [hadds])]
      exact .bind (hreads.idle ((hreads.same s t hsame).trans htraits)) fun r _ => .pure _ r
    · cases hm
    · rw [skippedFiles, if_neg (by simp [hadds]), ← modules_files project (.of name) traits fields]
      rfl

/-! ## What actions read -/

/-- What the text of the schema file, if there is one, tells of how a table was generated. -/
def tableShape (options : Options) (names : ModelNames) : Option String → Except Failure TableOptions
  | none => .ok options.toTableOptions
  | some source => ((Schema.tableBlock? source names.tableName).mapError (.schema none)).map
      fun block => block.elim options.toTableOptions traitsOf

theorem tableTraits_eq (project : Project) (options : Options) (names : ModelNames) :
    Command.tableTraits project options names =
      (readText? project.schemaPath >>= fun source => lift id (tableShape options names source)) := by
  refine bind_congr fun source => ?_
  cases source with
  | none => rfl
  | some text =>
    dsimp only [tableShape]
    cases Schema.tableBlock? text names.tableName with
    | error e => rfl
    | ok block => cases block <;> rfl

theorem tableTraits_read {source : Option String} {traits : TableOptions}
    (hread : Idle (readText? project.schemaPath) s source)
    (hshape : tableShape options names source = .ok traits) :
    value (Command.tableTraits project options names) s = .ok traits := by
  have hidle : Idle (readText? project.schemaPath >>= fun source =>
      lift id (tableShape options names source)) s traits :=
    hread.bind fun r _ => .lift hshape r
  obtain ⟨r, hr, -⟩ := hidle
  rw [tableTraits_eq]
  exact value_eq_ok hr

/-- The shape of a table is read again as before, unless the schema file has come into view. -/
theorem tableTraits_again {traits : TableOptions}
    (h : value (Command.tableTraits project options names) s = .ok traits) {written : List String}
    (hgrew : s.Grew written u) (hschema : Project.schemaFile ∉ written)
    (hhidden : s.tree.probe project.schemaPath = .ok false →
      u.tree.probe project.schemaPath = .ok false) :
    value (Command.tableTraits project options names) u = .ok traits := by
  have hrun := run_eq_ok h
  rw [tableTraits_eq] at hrun
  obtain ⟨source, t, hread, hlift⟩ := returns_bind hrun
  have hagain : Idle (readText? project.schemaPath) u source := by
    cases source with
    | none => exact .bind (.exists? (hhidden (returns_readText? hread))) fun r _ => .pure _ r
    | some text =>
      have hname : Path.name project.schemaPath ∉ written := by
        rwa [Project.schemaPath, name_concat]
      exact .readText? (hgrew.tree.read hname (returns_readText?_some hread))
  exact tableTraits_read hagain (returns_lift hlift).1

/-- The schema file of a detected project does not lie on the way to the app directory. -/
theorem schemaPath_not_prefix (h : project.Detected) (rest : Path) :
    ¬ project.schemaPath <+: project.appDir ++ rest := by
  intro hpre
  rcases List.prefix_or_prefix_of_prefix hpre (List.prefix_append project.appDir rest) with hle | hle
  · obtain ⟨start, -, db, hdb, happ, hdir⟩ := h.folders
    have hlength := hle.length_le
    have hpos : ∀ db ∈ [["db"], ["lib", "db"], ["server", "db"]], 0 < db.length := by decide
    have := hpos db hdb
    rw [Project.schemaPath, happ, hdir] at hlength
    simp only [List.length_append, List.length_cons, List.length_nil] at hlength
    omega
  · exact h.appDir_not_prefix _ hle

/-- So no module lies below it. -/
theorem schemaPath_apart (hproject : project.Detected) (hname : validateModelName name = .ok ())
    {traits : TableOptions} {p : Product} (hp : p ∈ g.products project (.of name) fields none traits) :
    ¬ project.schemaPath <+: p.path := by
  obtain ⟨rest, -, hdirectory⟩ := g.directory_eq hname project
  rw [products, Option.toList_none, List.map_nil, List.nil_append] at hp
  obtain ⟨m, hm, rfl⟩ := List.mem_map.mp hp
  obtain ⟨place, -, hpath⟩ := mem_modules hm
  show ¬ project.schemaPath <+: m.path
  rw [← hpath, hdirectory, List.append_assoc]
  exact schemaPath_not_prefix hproject _

/-- Below the root the names of a detected project are short. -/
theorem schemaPath_short (hproject : project.Detected)
    (hroot : ∀ part ∈ project.root, part.utf8ByteSize ≤ nameLimit) :
    ∀ part ∈ project.schemaPath, part.utf8ByteSize ≤ nameLimit := by
  obtain ⟨start, hstart, db, hdb, -, hdir⟩ := hproject.folders
  have hsteps : ∀ start ∈ [[], ["src"]], ∀ db ∈ [["db"], ["lib", "db"], ["server", "db"]],
      ∀ part ∈ start ++ db ++ [Project.schemaFile], part.utf8ByteSize ≤ nameLimit := by
    decide
  intro part hmem
  rw [Project.schemaPath, hdir, List.append_assoc, List.append_assoc, List.mem_append] at hmem
  rcases hmem with hmem | hmem
  · exact hroot part hmem
  · exact hsteps start hstart db hdb part (by rwa [List.append_assoc])

/-- A schema file that is not there does not come into view while modules are written. -/
theorem schema_hidden (hproject : project.Detected) (hname : validateModelName name = .ok ())
    (hs : s.tree.Closed) (hadds : g.addsTable = false) (hreal : options.dryRun = false) {o : Outcome}
    (h : value (g.run project options name) s = .ok o)
    (hshows : ∀ place ∈ g.places,
      (after (g.run project options name) s).Shows (g.directory project (.of name) ++ place))
    (hplaces : g.places ≠ []) {there : Bool} (hprobe : s.tree.probe project.schemaPath = .ok there) :
    (after (g.run project options name) s).tree.probe project.schemaPath = .ok there := by
  obtain ⟨fields, traits, entries, -, hread, hentries, -, -, haccounts⟩ :=
    accounts_run hreal (.inl hproject) hs h
  have hnone : o.merge = none := by
    rcases read_cases hread with ⟨htrue, -⟩ | ⟨-, hnone, -⟩
    · rw [hadds] at htrue
      cases htrue
    · exact hnone
  have hbelow : ∀ e ∈ entries, ¬ project.schemaPath <+: e.1.path := by
    intro e he
    have hp : e.1 ∈ g.products project (.of name) fields o.merge traits :=
      hentries ▸ List.mem_map_of_mem he
    rw [hnone] at hp
    exact schemaPath_apart hproject hname hp
  have hroot : ∀ part ∈ project.root, part.utf8ByteSize ≤ nameLimit := by
    obtain ⟨place, hplace⟩ := List.exists_mem_of_ne_nil _ hplaces
    obtain ⟨found, node, hlocate⟩ := probe_true.mp (hshows place hplace).there
    obtain ⟨rest, -, hdirectory⟩ := g.directory_eq hname project
    obtain ⟨start, -, db, -, happ, -⟩ := hproject.folders
    intro part hmem
    refine follow_short (locate_of_follow hlocate nofun).1 part ?_
    rw [hdirectory, happ]
    simp [hmem]
  exact probe_same hs (haccounts.wrote.closed hs) (apart_of_detected hproject hname g).straight_schemaPath
    (schemaPath_short hproject hroot) (haccounts.before hbelow) hprobe

/-- After writing actions, the shape of their table is read again. -/
theorem tableTraits_rerun (hs : s.tree.Closed) (hreal : options.dryRun = false) {o : Outcome}
    (h : value (actions.run project options name) s = .ok o)
    (hproject : project.Detected ∨ (s.tree.probe project.schemaPath = .ok false →
      (after (actions.run project options name) s).tree.probe project.schemaPath = .ok false)) :
    ∃ traits, value (Command.tableTraits project options (.of name))
      (after (actions.run project options name) s) = .ok traits := by
  obtain ⟨fields, merge, traits, t, hprepared, hread, hsame, hwrite⟩ := run_ok (run_eq_ok h)
  obtain ⟨hname, -, -⟩ := prepare_ok hprepared
  obtain ⟨-, rfl, htable⟩ := (read_cases hread).resolve_left fun hyes => Bool.false_ne_true hyes.1
  obtain ⟨-, -, hshows, r, hput, hgrew⟩ := grew_write hreal hwrite
  cases hput
  have hhidden : s.tree.probe project.schemaPath = .ok false →
      (after (actions.run project options name) s).tree.probe project.schemaPath = .ok false := by
    intro hnone
    rcases hproject with hdetected | hhidden
    · exact schema_hidden hdetected hname hs rfl hreal h hshows (by simp [places]) hnone
    · exact hhidden hnone
  exact ⟨traits, tableTraits_again htable ((Session.Grew.of_sameFiles hsame).trans hgrew)
    (actions.schemaFile_not_mem project _ traits fields) hhidden⟩

end Generation

namespace Command

open Generation

/-- Running a command a second time changes nothing. The second run succeeds, deals with the same
files in the same order, and skips them all, the table included. Server actions besides must not
bring a schema file into view that was not there; in a project as detection finds it they do not. -/
theorem rerun_skips (project : Project) (options : Options) (name : String) (g : Generation)
    (s : Session) (hs : s.tree.Closed) (hforce : options.force = false)
    (hreal : options.dryRun = false)
    (hvalues : ∀ fields, Field.parseAll g.definitions = .ok fields →
      ∀ f ∈ fields, ∀ value ∈ f.enumValues.getD [], Text.occursIn "*/" value = false)
    (o : Outcome) (h : value (g.run project options name) s = .ok o)
    (hproject : g = .actions → project.Detected ∨
      (s.tree.probe project.schemaPath = .ok false →
        (after (g.run project options name) s).tree.probe project.schemaPath = .ok false)) :
    let u := after (g.run project options name) s
    ∃ o', value (g.run project options name) u = .ok o' ∧
      o'.files = (o.files.map fun f => { f with written := false }) ∧ o'.written = [] ∧
      o'.merge.map (·.action) = (o.merge.map fun _ => .skipped) ∧
      (after (g.run project options name) u).tree = u.tree := by
  intro u
  have hrun : g.run project options name s = .ok o u := run_eq_ok h
  obtain ⟨fields, merge, traits, t, hprepared, hread, hsame, hwrite⟩ := run_ok hrun
  obtain ⟨hname, hfields, -⟩ := prepare_ok hprepared
  obtain ⟨hsettled, hmerge, hfiles⟩ :=
    settled_write hreal hname hfields (hvalues fields hfields) hread hsame.tree hwrite
  have htraits : g.addsTable = false →
      ∃ traits, value (g.traits project options (.of name)) u = .ok traits := by
    intro hadds
    cases g with
    | model | resource | scaffold | api => cases hadds
    | pages | routes => exact ⟨options.toTableOptions, rfl⟩
    | actions => exact tableTraits_rerun hs hreal h (hproject rfl)
  obtain ⟨o', ⟨v, hagain, hquiet⟩, hfiles', hmerge'⟩ := idle_run hforce hprepared hsettled htraits
  refine ⟨o', value_eq_ok hagain, hfiles'.trans hfiles.symm, ?_, ?_, ?_⟩
  · rw [Outcome.written, hfiles', ← hfiles, List.filter_map]
    simp [Function.comp_def]
  · rw [hmerge']
    cases hm : o.merge with
    | none => rw [← hmerge, hm]; rfl
    | some m => rw [← hmerge, hm]; rfl
  · rw [after_eq hagain]
    exact hquiet.tree

theorem rerun_skips_noted :
    let project : Project := { root := [], layout := {}, dialect := .sqlite }
    let scaffold := Generation.run project {} "Post" (.scaffold ["title", "state:enum:open,done"])
    let u := after scaffold notedSession
    ∃ o', value scaffold u = .ok o' ∧ o'.files.length = 6 ∧ o'.written = [] ∧
      (after scaffold u).tree = u.tree := by
  intro project scaffold u
  have hparsed : Field.parseAll ["title", "state:enum:open,done"] = .ok [{ name := "title", type := .string },
      { name := "state", type := .enum, enumValues := some ["open", "done"] }] := by
    decide
  have hvalues : ∀ fields, Field.parseAll ["title", "state:enum:open,done"] = .ok fields →
      ∀ f ∈ fields, ∀ value ∈ f.enumValues.getD [], Text.occursIn "*/" value = false := by
    intro fields hfields
    rw [hparsed] at hfields
    rw [← Except.ok.inj hfields]
    decide
  have hfiles : (value scaffold notedSession).map (·.files.length) = .ok 6 := by
    decide +kernel
  obtain ⟨o, hrun, hlength⟩ := map_ok hfiles
  obtain ⟨o', hagain, hsame, hwritten, -, htree⟩ := rerun_skips project {} "Post"
    (.scaffold ["title", "state:enum:open,done"]) notedSession (by decide) rfl rfl hvalues o hrun nofun
  refine ⟨o', hagain, ?_, hwritten, htree⟩
  rw [hsame, List.length_map]
  exact hlength

/-- Where the path of the database directory goes through the app directory and up again, writing
the actions of a model brings a schema file into view, and the second run fails on it. -/
theorem rerun_fails :
    let crossed : Project := {
      root := [], layout := { appFolder := "web", dbFolder := "web/../db" }, dialect := .sqlite }
    let actions := Generation.run crossed {} "Post" .actions
    unclosedSession.tree.Closed ∧
      (value actions unclosedSession).map Outcome.written = .ok [["web", "posts", "actions.ts"]] ∧
      value actions (after actions unclosedSession) = .error (.schema none .unterminatedBlock) := by
  decide +kernel

end Command
end SchemaScaffold
