import SchemaScaffold.Proofs.Command.Undoing
import SchemaScaffold.Proofs.Table.Marks

/-!
Server actions that follow a table. They are written after the table, from what its block tells: the
type of the identifiers and the order of a list. Two marks of a UUID and the name of a timestamp
column are looked for in the block, so they follow the table as long as nothing else in it holds
them.
-/

namespace SchemaScaffold

open Naming Generated Generate SchemaScaffold.Tree Text

/-- A request that brings no mark along for a column that its table does not get. -/
structure Unmistakable (names : ModelNames) (fields : List Field) (dialect : Dialect)
    (options : TableOptions) : Prop where
  key : options.uuid = false → ∀ mark ∈ keyMarks, ¬ mark.toList <:+: names.camelPlural.toList ∧
    ∀ f ∈ fields, ¬ mark.toList <:+: f.name.toList ∧
      ∀ text ∈ Mapping.borrowed dialect names.tableName f, ¬ mark.toList <:+: text.toList
  stamps : options.timestamps = false → ∀ f ∈ fields, ¬ "createdAt".toList <:+ f.name.toList

/-! ## The block of a table -/

namespace Definition

variable (d : Definition)

/-- The block of a table tells how it was generated, unless the request can be mistaken. -/
theorem traitsOf_block : traitsOf (d.table.renderBlock ++ "\n") = d.options ↔
    Unmistakable (.of d.model) d.fields d.dialect d.options := by
  have hflag : ∀ {told asked : Bool} {brought : Prop}, (told = true ↔ asked = true ∨ brought) →
      (told = asked ↔ (asked = false → ¬ brought)) := by
    intro told asked brought h
    cases told <;> cases asked <;> simp_all
  have hboth : ∀ a b : TableOptions, a = b ↔ a.uuid = b.uuid ∧ a.timestamps = b.timestamps := by
    rintro ⟨_, _⟩ ⟨_, _⟩
    simp
  have hblock : (d.table.renderBlock ++ "\n").toList = d.table.renderBlock.toList ++ ['\n'] := by
    rw [String.toList_append]
    rfl
  have huuid : (traitsOf (d.table.renderBlock ++ "\n")).uuid = true ↔
      ∃ w ∈ keyMarks, w.toList <:+: d.table.renderBlock.toList ++ ['\n'] := by
    simp only [traitsOf, occursIn, hblock, Bool.or_eq_true, occurs_iff, keyMarks, List.mem_cons,
      List.not_mem_nil, or_false, exists_eq_or_imp, exists_eq_left]
  have hstamps : (traitsOf (d.table.renderBlock ++ "\n")).timestamps = true ↔
      stampMark.toList <:+: d.table.renderBlock.toList ++ ['\n'] := by
    simp only [traitsOf, occursIn, hblock, occurs_iff, stampMark]
  rw [d.keyMark_block, ← d.tableName_eq, ← d.camelPlural_eq] at huuid
  rw [d.stampMark_block] at hstamps
  rw [hboth, hflag huuid, hflag hstamps]
  simp only [not_exists, not_and, not_or]
  exact ⟨fun h => ⟨h.1, h.2⟩, fun h => ⟨h.key, h.stamps⟩⟩

end Definition

/-! ## The text of the actions -/

namespace Generated

/-- Of two words that start apart, a text starts with one only. -/
theorem choice_eq {s t x y : String} (hs : s ≠ "") (ht : t ≠ "")
    (hapart : s.toList.head? ≠ t.toList.head?) {p q : Bool}
    (h : (if p then s else t) ++ x = (if q then s else t) ++ y) : p = q := by
  have hhead : ∀ {s x : String}, s ≠ "" → (s ++ x).toList.head? = s.toList.head? := by
    intro s x hne
    rw [String.toList_append, List.head?_append_of_ne_nil _ (by simpa using hne)]
  have heads := congrArg (fun text : String => text.toList.head?) h
  cases p <;> cases q
  · rfl
  · exact absurd ((hhead hs).symm.trans (heads.symm.trans (hhead ht))) hapart
  · exact absurd ((hhead hs).symm.trans (heads.trans (hhead ht))) hapart
  · rfl

/-- The text of the actions shows both the order of a list and the type of the identifiers. -/
theorem actions_injective {project : Project} {names : ModelNames} {a b : TableOptions}
    (h : actions (.of project names a) = actions (.of project names b)) : a = b := by
  obtain ⟨akey, atimes⟩ := a
  obtain ⟨bkey, btimes⟩ := b
  unfold actions at h
  simp only [unlines, List.cons_append, List.foldr_cons, String.append_assoc, Model.table, Model.of,
    Model.orderColumn, Model.idType, String.append_right_inj] at h
  -- what is left of the texts starts at the column that lists are ordered by
  obtain rfl : atimes = btimes := choice_eq (by decide) (by decide) (by decide) h
  have h := (String.append_right_inj _).mp h
  simp only [String.append_right_inj] at h
  obtain rfl : akey = bkey := choice_eq (by decide) (by decide) (by decide) h
  rfl

end Generated

/-! ## Reading the table -/

namespace Generation

open Command

variable {project : Project} {options : Options} {name : String} {names : ModelNames}
  {fields : List Field} {s t : Session}

/-- Without a schema file a merge makes a schema of the one table. -/
theorem mergeTable_missing (hnone : s.tree.probe project.schemaPath = .ok false) {m : Schema.Merge}
    (h : value (mergeTable project options names fields) s = .ok m) : ∃ table,
      Mapping.standard.table names fields project.dialect options.toTableOptions = .ok table ∧
      m = { content := Schema.fresh table, action := .created } := by
  obtain ⟨table, existing, htable, hread, hmerge⟩ := mergeTable_ok h
  have hthere := returns_readText? (run_eq_ok hread)
  rw [hnone] at hthere
  cases existing with
  | some text => cases hthere
  | none => exact ⟨table, htable, (Except.ok.inj hmerge).symm⟩

/-- A command that reads the shape of a table from a schema with this one table is told by its block. -/
theorem tableTraits_fresh (d : Definition) (hname : d.table.name ≠ "")
    (hread : s.tree.read project.schemaPath = .ok (some (Schema.fresh d.table))) :
    value (Command.tableTraits project options (.of d.model)) s =
      .ok (traitsOf (d.table.renderBlock ++ "\n")) := by
  have hshape : tableShape options (.of d.model) (some (Schema.fresh d.table)) =
      .ok (traitsOf (d.table.renderBlock ++ "\n")) := by
    rw [tableShape, d.tableName_eq, d.tableBlock?_fresh hname]
    rfl
  exact tableTraits_read (.readText? hread) hshape

end Generation

namespace Command

variable {options : WriteOptions} {s t : Session}

theorem writeModules_one {m : Module} {p : Outcome} (h : writeModules options [m] s = .ok p t) :
    ∃ written, writeFile options m.path m.content s = .ok written t ∧
      p = { files := [{ path := m.path, template := some m.template, written }] } := by
  obtain ⟨files, _, hfiles, hpure⟩ := returns_bind h
  cases hpure
  rw [List.mapM_cons] at hfiles
  obtain ⟨file, r, hfile, hrest⟩ := returns_bind hfiles
  obtain ⟨written, _, hwrite, hpure⟩ := returns_bind hfile
  cases hpure
  cases hrest
  exact ⟨written, hwrite, rfl⟩

/-- A module is written or skipped whatever its text is. -/
theorem standing_writeModules (options : WriteOptions) (path : Path) (template : Template)
    (content other : String) : Follows Session.SameFiles Standing
      (writeModules options [{ path, template, content }])
      (writeModules options [{ path, template, content := other }]) := by
  refine .bind ?_ fun _ => .pure (fun _ _ => id) _
  rw [List.mapM_cons, List.mapM_cons]
  refine .bind (.bind (standing_writeFile options path content other) fun _ =>
    .pure (fun _ _ => id) _) fun _ => ?_
  exact .bind (.pure (fun _ _ => id) _) fun _ => .pure (fun _ _ => id) _

/-- Server actions of two shapes, from the same files. Both are written or both are skipped; what they
leave is the same if the shapes are, and where they are written it is the same only then. -/
theorem actions_shapes (hdry : options.dryRun = false) {project : Project} {names : ModelNames}
    {a : TableOptions} (b : TableOptions) {p : Outcome} {u : Session}
    (h : writeModules options (actionModules project names a) s = .ok p u) (hsame : t.SameFiles s) :
    let path := pagesDir project names ++ ["actions.ts"]
    ∃ v, writeModules options (actionModules project names b) t = .ok p v ∧
      (b = a → v.tree = u.tree) ∧
      (path ∈ p.written → v.tree.locate path = u.tree.locate path → b = a) := by
  intro path
  obtain ⟨v, hother, -⟩ := standing_writeModules options path .actions _ _ t s hsame p u h
  refine ⟨v, hother, ?_, fun hwritten hfound => ?_⟩
  · rintro rfl
    obtain ⟨v', hagain, hlike⟩ := steady_writeModules options _ t s hsame p u h
    cases hother.symm.trans hagain
    exact hlike.tree.symm
  · obtain ⟨written, hfile, rfl⟩ := writeModules_one h
    obtain ⟨_, hfile', heq⟩ := writeModules_one hother
    cases heq
    obtain rfl : written = true := by
      by_contra hno
      simp [Outcome.written, hno] at hwritten
    obtain ⟨place, hplace⟩ := locate_writeFile hdry hfile
    obtain ⟨place', hplace'⟩ := locate_writeFile hdry hfile'
    rw [show v.tree.locate path = _ from hplace', show u.tree.locate path = _ from hplace] at hfound
    injection hfound with _ hnode
    injection hnode with hcontent
    injection hcontent with htext
    exact actions_injective htext

/-- What actions do once the shape of the table is known. -/
theorem actions_run {project : Project} {options : Options} {name : String} {shape : TableOptions}
    (hname : validateModelName name = .ok ())
    (hshape : value (Command.tableTraits project options (.of name)) s = .ok shape) : ∃ t,
      s.SameFiles t ∧ Command.actions project options name s =
        writeModules options.toWriteOptions (actionModules project (.of name) shape) t := by
  have hprepare : Command.prepare options name [] s = .ok (.of name, []) s := by
    have hcolumns : ∀ timestamps, checkColumnNames [] timestamps = .ok () := by decide
    rw [Command.prepare, Generate.prepare, hname]
    show Command.lift id (((checkColumnNames [] options.timestamps).mapError fun e =>
      Failure.table (.clash e)) >>= fun _ => pure (ModelNames.of name, [])) s = _
    rw [hcolumns]
    rfl
  refine ⟨_, (Reads.tableTraits project options (.of name)).looks.moves s, ?_⟩
  rw [Command.actions, bind_run hprepare]
  exact bind_run (run_eq_ok hshape)

end Command

namespace Generation

open Command

variable {project : Project} {s u : Session} {o : Outcome}

/-- A request that passes its checks comes to a table in any dialect. -/
theorem exists_definition {options : Options} {name : String} {definitions : List String}
    {fields : List Field}
    (h : Generate.prepare options name definitions = .ok (.of name, fields)) (dialect : Dialect) :
    ∃ d : Definition, d.model = name ∧ d.raws = definitions ∧ d.fields = fields ∧
      d.dialect = dialect ∧ d.options = options.toTableOptions := by
  obtain ⟨hname, hparsed, -⟩ := prepare_ok h
  exact ⟨⟨name, definitions, fields, dialect, options.toTableOptions, _, hname, hparsed,
    prepare_built h dialect⟩, rfl, rfl, rfl, rfl, rfl⟩

/-- Generating a resource where there is no schema file writes a schema of the one table, as adding
the table alone does, and goes on with the actions from there. -/
theorem resource_run (d : Definition) (hdialect : d.dialect = project.dialect)
    (hnone : s.tree.probe project.schemaPath = .ok false)
    (h : (resource d.raws).run project { toTableOptions := d.options } d.model s = .ok o u) :
    ∃ v p r w, (model d.raws).run project { toTableOptions := d.options } d.model s =
        .ok (tableOutcome project { content := Schema.fresh d.table, action := .created }) v ∧
      v.tree.read project.schemaPath = .ok (some (Schema.fresh d.table)) ∧ v.SameFiles r ∧
      writeModules {} (actionModules project (.of d.model) d.options) r = .ok p w ∧ w.SameFiles u ∧
      o.files = { path := project.schemaPath, written := true } :: p.files := by
  obtain ⟨fields, merge, traits, t, hprepared, hread, hsame, hwrite⟩ := run_ok h
  obtain ⟨-, hparsed, -⟩ := prepare_ok hprepared
  obtain rfl : d.fields = fields := Except.ok.inj (d.parsed.symm.trans hparsed)
  obtain ⟨-, htraits, m, rfl, hmerged⟩ :=
    (read_cases hread).resolve_right fun hno => Bool.false_ne_true hno.1.symm
  obtain rfl : d.options = traits := htraits.symm
  obtain ⟨table, hbuilt, rfl⟩ := mergeTable_missing hnone hmerged
  obtain rfl : d.table = table := by
    rw [← hdialect] at hbuilt
    exact Except.ok.inj (d.built.symm.trans hbuilt)
  obtain ⟨r, p, w, hput, hmodules, hquiet, rfl⟩ := write_parts hwrite
  obtain ⟨v, hmodel, hlike⟩ := model_run hprepared hmerged hsame hput
  obtain ⟨-, -, hschema, -⟩ := grew_putTable rfl hput
  refine ⟨v, p, r, w, hmodel, ?_, hlike, hmodules, hquiet, rfl⟩
  rw [← hlike.tree, hschema rfl]
  exact congrArg (fun text => Except.ok (some text)) d.withLineFeeds_fresh

/-- Actions after their table: both commands succeed, and do with their files what generating the
resource does. What the block tells decides the rest. -/
theorem actions_after_table (d : Definition) (hdialect : d.dialect = project.dialect)
    (hname : d.table.name ≠ "") (hnone : s.tree.probe project.schemaPath = .ok false)
    (h : (resource d.raws).run project { toTableOptions := d.options } d.model s = .ok o u) :
    let told := traitsOf (d.table.renderBlock ++ "\n")
    let path := pagesDir project (.of d.model) ++ ["actions.ts"]
    ∃ p v q w, (model d.raws).run project { toTableOptions := d.options } d.model s = .ok p v ∧
      Generation.actions.run project {} d.model v = .ok q w ∧ o.files = p.files ++ q.files ∧
      value (Command.tableTraits project {} (.of d.model)) v = .ok told ∧
      (told = d.options → w.tree = u.tree) ∧
      (path ∈ o.written → w.tree.locate path = u.tree.locate path → told = d.options) := by
  intro told path
  obtain ⟨v, q, r, w, hmodel, hread, hlike, hmodules, hquiet, hfiles⟩ := resource_run d hdialect hnone h
  have htold : value (Command.tableTraits project {} (.of d.model)) v = .ok told :=
    tableTraits_fresh d hname hread
  -- the actions are written from the files that the resource writes its own from
  obtain ⟨t, hsame, hactions⟩ := actions_run d.accepted htold
  obtain ⟨x, hwrite, htrees, htexts⟩ := actions_shapes rfl told hmodules (hsame.symm.trans hlike)
  have hpath : path ∈ o.written → path ∈ q.written := by
    have hother : path ≠ project.schemaPath := by
      intro heq
      have hlast := congrArg List.getLast? heq
      simp [path, Project.schemaPath, Project.schemaFile] at hlast
    intro hwritten
    rw [Outcome.written, hfiles] at hwritten
    exact (List.mem_cons.mp hwritten).resolve_left hother
  refine ⟨_, v, q, x, hmodel, hactions.trans hwrite, hfiles, htold, ?_, ?_⟩
  · rw [hquiet.tree]
    exact htrees
  · rw [hquiet.tree]
    exact fun hwritten => htexts (hpath hwritten)

end Generation

namespace Command

/-- Actions follow the table exactly if the request cannot be mistaken. Where there is no schema
file, adding a table and then its actions with default options succeeds whenever generating both at
once does. The block tells the shape that was asked for exactly if the request is unmistakable; then
the files are the same, and where the actions are written, their text is the same only then. -/
theorem actions_follow_iff (project : Project) (name : String) (definitions : List String)
    (fields : List Field) (hfields : Field.parseAll definitions = .ok fields) (shape : TableOptions)
    (hname : (ModelNames.of name).tableName ≠ "") (s : Session)
    (hnone : s.tree.probe project.schemaPath = .ok false) (o : Outcome)
    (h : value (Generation.run project { toTableOptions := shape } name (.resource definitions)) s =
      .ok o) :
    let model := Generation.run project { toTableOptions := shape } name (.model definitions)
    let resource := Generation.run project { toTableOptions := shape } name (.resource definitions)
    let actions := Generation.run project {} name .actions
    let path := pagesDir project (.of name) ++ ["actions.ts"]
    let clear := Unmistakable (.of name) fields project.dialect shape
    let followed := after actions (after model s)
    ∃ p q, value model s = .ok p ∧ value actions (after model s) = .ok q ∧
      o.files = p.files ++ q.files ∧
      (value (Command.tableTraits project {} (.of name)) (after model s) = .ok shape ↔ clear) ∧
      (clear → followed.tree = (after resource s).tree) ∧
      (path ∈ o.written →
        (followed.tree.locate path = (after resource s).tree.locate path ↔ clear)) := by
  intro model resource actions path clear followed
  have hrun : resource s = .ok o (after resource s) := run_eq_ok h
  obtain ⟨_, _, _, _, hprepared, -⟩ := Generation.run_ok hrun
  obtain ⟨d, rfl, rfl, hparsed, hdialect, rfl⟩ :=
    Generation.exists_definition hprepared project.dialect
  obtain rfl : d.fields = fields := Except.ok.inj (d.parsed.symm.trans hfields)
  obtain ⟨p, v, q, w, hmodel, hactions, hfiles, htold, htrees, htexts⟩ :=
    Generation.actions_after_table d hdialect (d.tableName_eq ▸ hname) hnone hrun
  have hclear : clear ↔ traitsOf (d.table.renderBlock ++ "\n") = d.options := by
    rw [d.traitsOf_block, hdialect]
  have hrunModel : after model s = v := after_eq hmodel
  have hrunFollowed : followed = w := by
    show after actions (after model s) = w
    rw [hrunModel]
    exact after_eq hactions
  rw [hrunFollowed, hrunModel, hclear]
  refine ⟨p, q, value_eq_ok hmodel, value_eq_ok hactions, hfiles, ?_, htrees, fun hwritten =>
    ⟨htexts hwritten, fun h => congrArg (·.locate path) (htrees h)⟩⟩
  rw [htold, Except.ok.injEq]

theorem actions_follow_iff_plain :
    let shape : TableOptions := { timestamps := false }
    let definitions := ["createdBy", "state:enum:open,done"]
    let model := Generation.run plainProject { toTableOptions := shape } "Post" (.model definitions)
    let resource := Generation.run plainProject { toTableOptions := shape } "Post" (.resource definitions)
    let actions := Generation.run plainProject {} "Post" .actions
    value (Command.tableTraits plainProject {} (.of "Post")) (after model plainSession) = .ok shape ∧
      (after actions (after model plainSession)).tree = (after resource plainSession).tree := by
  intro shape definitions model resource actions
  let fields : List Field := [{ name := "createdBy", type := .string },
    { name := "state", type := .enum, enumValues := some ["open", "done"] }]
  have hclear : Unmistakable (.of "Post") fields .sqlite shape := by
    refine ⟨fun _ => ?_, fun _ => ?_⟩
    · show ∀ mark ∈ keyMarks, _ ∧ ∀ f ∈ fields, _
      decide +kernel
    · decide
  have hwritten : (value resource plainSession).map Outcome.written =
      .ok [["db", "schema.ts"], ["app", "posts", "actions.ts"]] := by
    decide +kernel
  obtain ⟨o, hrun, -⟩ := map_ok hwritten
  obtain ⟨_, _, -, -, -, htold, htrees, -⟩ := actions_follow_iff plainProject "Post" definitions
    fields (by decide) shape (by decide +kernel) plainSession (by decide +kernel) o hrun
  exact ⟨htold.mpr hclear, htrees hclear⟩

/-- A field of the name of a timestamp column is taken for one, in a table without timestamps. -/
theorem actions_mistake_field :
    let options : Options := { timestamps := false }
    let model := Generation.run plainProject options "Post" (.model ["createdAt:datetime"])
    let resource := Generation.run plainProject options "Post" (.resource ["createdAt:datetime"])
    let actions := Generation.run plainProject {} "Post" .actions
    let path := ["app", "posts", "actions.ts"]
    plainSession.tree.probe plainProject.schemaPath = .ok false ∧
      (ModelNames.of "Post").tableName ≠ "" ∧
      (value resource plainSession).map Outcome.written = .ok [["db", "schema.ts"], path] ∧
      (value model plainSession).isOk = true ∧ (value actions (after model plainSession)).isOk = true ∧
      value (Command.tableTraits plainProject {} (.of "Post")) (after model plainSession) =
        .ok { uuid := false, timestamps := true } ∧
      (after actions (after model plainSession)).tree.locate path ≠
        (after resource plainSession).tree.locate path := by
  intro options model resource actions path
  have hresource : plainSession.tree.probe plainProject.schemaPath = .ok false ∧
      (ModelNames.of "Post").tableName ≠ "" ∧
      (value resource plainSession).map Outcome.written = .ok [["db", "schema.ts"], path] := by
    decide +kernel
  obtain ⟨hnone, hname, hwritten⟩ := hresource
  obtain ⟨o, hrun, ho⟩ := map_ok hwritten
  let d : Definition := {
    model := "Post", raws := ["createdAt:datetime"], dialect := .sqlite
    fields := [{ name := "createdAt", type := .datetime }], options := { timestamps := false }
    table := _, accepted := by decide, parsed := by decide, built := rfl }
  have htold : traitsOf (d.table.renderBlock ++ "\n") = { uuid := false, timestamps := true } := by
    decide +kernel
  obtain ⟨p, v, q, w, hmodel, hactions, -, hread, -, htexts⟩ :=
    Generation.actions_after_table d rfl (d.tableName_eq ▸ hname) hnone (run_eq_ok hrun)
  rw [htold] at hread htexts
  have hpath : pagesDir plainProject (.of "Post") ++ ["actions.ts"] = path := by
    decide +kernel
  rw [show after model plainSession = v from after_eq hmodel, show after actions v = w from after_eq hactions,
    show value model plainSession = .ok p from value_eq_ok hmodel,
    show value actions v = .ok q from value_eq_ok hactions]
  refine ⟨hnone, hname, hwritten, rfl, rfl, hread, fun hfound => ?_⟩
  rw [show pagesDir plainProject (.of d.model) ++ ["actions.ts"] = path from hpath] at htexts
  cases congrArg TableOptions.timestamps (htexts (ho ▸ by simp) hfound)

end Command
end SchemaScaffold
