import SchemaScaffold.Proofs.Command.Refusals
import SchemaScaffold.Proofs.Session.Reach

/-!
What a setup may overwrite. It deals with its files one after the other; at the turn of each it looks
whether the file is there, and asks before it writes over it, unless the file is the environment
file, to which it adds. What a turn can do is told once, and the rest follows from that: what a setup
changes, whose leave it had, and which files it names in the end.
-/

namespace SchemaScaffold

open Setup SchemaScaffold.Tree SchemaScaffold.Path

namespace Setup

/-- A file of a setup. -/
structure Item where
  file : String
  content : String
  /-- Whether its content is added to what the file holds. -/
  merges : Bool := false

def Item.path (root : Path) (e : Item) : Path := root ++ Path.parse e.file

/-- A file that is written as a whole. -/
def Item.plain (written : String × String) : Item := { file := written.1, content := written.2 }

/-- The environment file, which is added to. -/
def envItem (options : Options) : Item where
  file := envExampleFile
  content := envFile options
  merges := true

/-- The files of a setup, in the order of their turns. -/
def items (options : Options) : List Item :=
  (filesBefore options).map Item.plain ++ (if options.writeEnv then [envItem options] else []) ++
    (filesAfter options).map Item.plain

/-- The file that a setup means by a name in its result. -/
def fileOf (name : String) : String :=
  if name = envExampleFile ++ " (updated)" then envExampleFile else name

/-- The files that setups write. -/
def fileNames (options : Options) : List String :=
  [Project.configFile, options.dbPath ++ "/index.ts", options.dbPath ++ "/" ++ Project.schemaFile,
    envExampleFile, "docker-compose.yml"]

theorem item_cases {options : Options} {e : Item} (he : e ∈ items options) :
    (e.merges = false ∨ e = envItem options) ∧ e.file ∈ fileNames options := by
  simp only [items, List.mem_append, List.mem_map] at he
  rcases he with (⟨written, hwritten, rfl⟩ | he) | ⟨written, hwritten, rfl⟩
  · refine ⟨.inl rfl, ?_⟩
    simp only [filesBefore, List.mem_cons, List.not_mem_nil, or_false] at hwritten
    rcases hwritten with rfl | rfl | rfl <;> simp [Item.plain, fileNames]
  · split at he
    · rw [List.mem_singleton.mp he]
      exact ⟨.inr rfl, by simp [envItem, fileNames]⟩
    · cases he
  · refine ⟨.inl rfl, ?_⟩
    unfold filesAfter at hwritten
    split at hwritten
    · obtain ⟨content, -, rfl⟩ := List.mem_map.mp hwritten
      simp [Item.plain, fileNames]
    · cases hwritten

theorem fileOf_item {options : Options} {e : Item} (he : e ∈ items options) :
    fileOf e.file = e.file := by
  have hlast : ∀ file ∈ fileNames options, file.toList.getLast? ≠ some ')' := by
    have hconfig : Project.configFile.toList.getLast? ≠ some ')' := by decide
    have henv : envExampleFile.toList.getLast? ≠ some ')' := by decide
    have hcompose : "docker-compose.yml".toList.getLast? ≠ some ')' := by decide
    intro file hfile
    simp only [fileNames, List.mem_cons, List.not_mem_nil, or_false] at hfile
    rcases hfile with rfl | rfl | rfl | rfl | rfl
    · exact hconfig
    · simp [String.toList_append]
    · simp [String.toList_append, Project.schemaFile]
    · exact henv
    · exact hcompose
  refine if_neg fun h => hlast _ (item_cases he).2 ?_
  rw [h]
  decide

end Setup

namespace Command

variable {root : Path} {options : Setup.Options} {e : Item} {s t u v : Session}

/-- The turn of a file. -/
def writeItem (root : Path) (options : Setup.Options) (e : Item) : Command (List String) :=
  if e.merges then writeEnvFile root options else writeSetupFile root options e.file e.content

theorem createFiles_eq (root : Path) (options : Setup.Options) : createFiles root options =
    (do return (← (items options).mapM (writeItem root options)).flatten) := by
  have hfiles : ∀ files, writeSetupFiles root options files =
      do return (← (files.map Item.plain).mapM (writeItem root options)).flatten := by
    intro files
    rw [List.mapM_map]
    rfl
  unfold createFiles items
  rw [hfiles, hfiles, List.mapM_append, List.mapM_append]
  cases options.writeEnv <;> simp [writeItem, envItem]

/-- What is asked before a file is written over. -/
def overwriteQuestion (path : Path) : String := path.name ++ " already exists. Overwrite?"

/-- Leave to write a text at the turn of a file. -/
inductive Leave (root : Path) (options : Setup.Options) (e : Item) (u : Session) : String → Prop
  /-- Nothing is there. -/
  | free (h : u.tree.probe (e.path root) = .ok false) : Leave root options e u e.content
  | forced (h : options.force = true) : Leave root options e u e.content
  /-- The question whether to write over it is answered with yes. -/
  | agreed (hplain : e.merges = false) (hthere : u.tree.probe (e.path root) = .ok true)
    (hyes : value (confirm (overwriteQuestion (e.path root))) u = .ok true) :
    Leave root options e u e.content
  /-- The text is added to what is there, which does not mention the variable. -/
  | added {old : String} (hmerges : e.merges = true) (hforce : options.force = false)
    (hold : u.tree.read (e.path root) = .ok (some old))
    (hlacks : Text.occursIn options.driver.envVar old = false) :
    Leave root options e u (mergeEnv old e.content)

/-! ## What a turn can do -/

/-- A file may be written: it is missing, or there is leave to write over it. -/
def Granted (options : Setup.Options) (path : Path) (u : Session) : Prop :=
  u.tree.probe path = .ok false ∨ options.force = true ∨
    (u.tree.probe path = .ok true ∧ value (confirm (overwriteQuestion path)) u = .ok true)

/-- A file is there, and was not given up. -/
def Refused (options : Setup.Options) (path : Path) (u : Session) : Prop :=
  u.tree.probe path = .ok true ∧ options.force = false ∧
    value (confirm (overwriteQuestion path)) u = .ok false

theorem Refused.not_granted {path : Path} (h : Refused options path u) : ¬ Granted options path u := by
  obtain ⟨hthere, hforce, hno⟩ := h
  rintro (hfree | hforced | ⟨-, hyes⟩)
  · rw [hthere] at hfree
    cases hfree
  · rw [hforce] at hforced
    cases hforced
  · rw [hno] at hyes
    cases hyes

theorem returns_mayWrite (hdry : options.dryRun = false) {path : Path} {may : Bool}
    (h : mayWrite options path u = .ok may v) :
    u.SameFiles v ∧ if may then Granted options path u else Refused options path u := by
  have hasks : Obeys Session.SameFiles (fun _ => True) (confirm (overwriteQuestion path)) :=
    looking.confirm (fun _ _ => trivial) _
  obtain ⟨there, _, hask, h⟩ := returns_bind h
  obtain ⟨hthere, rfl⟩ := returns_exists? hask
  split at h
  · rename_i hfree
    cases h
    refine ⟨.rfl, ?_⟩
    rw [hdry, Bool.or_false] at hfree
    cases there with
    | false => exact .inl hthere
    | true => exact .inr (.inl (by simpa using hfree))
  · rename_i hasked
    have hasked : there = true ∧ options.force = false := by simpa [hdry] using hasked
    rw [hasked.1] at hthere
    obtain ⟨answer, w, hconfirm, h⟩ := returns_bind h
    have hsame := hasks.returns hconfirm
    split at h
    · rename_i hyes
      cases h
      exact ⟨hsame, .inr (.inr ⟨hthere, hyes ▸ value_eq_ok hconfirm⟩)⟩
    · rename_i hno
      obtain ⟨_, r, hreport, h⟩ := returns_bind h
      cases h
      have hno : answer = false := by simpa using hno
      exact ⟨hsame.trans (returns_report hreport), hthere, hasked.2, hno ▸ value_eq_ok hconfirm⟩

/-- A write that is allowed stores the file, if it does not fail before. -/
theorem returns_setupWrite (hdry : options.dryRun = false) {path : Path} {content : String}
    {written : Bool} (h : writeFile (setupWrites options) path content u = .ok written v) :
    written = true ∧ Stores path content u v := by
  obtain ⟨there, _, hask, h⟩ := returns_bind h
  obtain ⟨-, rfl⟩ := returns_exists? hask
  rw [if_neg (by simp [setupWrites]), if_neg (by simp [setupWrites, hdry])] at h
  obtain ⟨_, w, hstore, h⟩ := returns_bind h
  obtain ⟨_, r, hreport, h⟩ := returns_bind h
  cases h
  exact ⟨rfl, u, w, .rfl, hstore, returns_report hreport⟩

theorem fails_setupWrite (hdry : options.dryRun = false) {path : Path} {content : String}
    {failure : Failure} (h : writeFile (setupWrites options) path content u = .error failure v) :
    Paved u.tree v.tree path.dropLast ∨ Stores path content u v := by
  rcases fails_bind h with hask | ⟨there, w, hask, h⟩
  · have hsame := ((looking.exists? path).fails hask).1
    exact .inl (hsame.tree ▸ .refl _ _)
  · obtain ⟨-, rfl⟩ := returns_exists? hask
    rw [if_neg (by simp [setupWrites]), if_neg (by simp [setupWrites, hdry])] at h
    rcases fails_bind h with hstore | ⟨_, w, hstore, h⟩
    · exact .inl (paved_store hstore)
    · rcases fails_bind h with hreport | ⟨_, r, hreport, h⟩
      · have hsame := ((looking.report _ _).fails hreport).1
        exact .inr ⟨u, w, .rfl, hstore, hsame⟩
      · cases h

theorem returns_writeSetupFile (hdry : options.dryRun = false) {file content : String}
    {names : List String} (h : writeSetupFile root options file content u = .ok names v) :
    (names = [] ∧ u.SameFiles v ∧ Refused options (root ++ Path.parse file) u) ∨
      (names = [file] ∧ Stores (root ++ Path.parse file) content u v ∧
        Granted options (root ++ Path.parse file) u) := by
  obtain ⟨may, w, hmay, h⟩ := returns_bind h
  obtain ⟨hsame, hleave⟩ := returns_mayWrite hdry hmay
  cases may with
  | false =>
    cases h
    exact .inl ⟨rfl, hsame, hleave⟩
  | true =>
    obtain ⟨written, r, hwrite, h⟩ := returns_bind h
    obtain ⟨rfl, hstores⟩ := returns_setupWrite hdry hwrite
    cases h
    exact .inr ⟨rfl, .behind hsame hstores, hleave⟩

theorem fails_writeSetupFile (hdry : options.dryRun = false) {file content : String}
    {failure : Failure} (h : writeSetupFile root options file content u = .error failure v) :
    Paved u.tree v.tree (root ++ Path.parse file).dropLast ∨
      (Stores (root ++ Path.parse file) content u v ∧
        Granted options (root ++ Path.parse file) u) := by
  rcases fails_bind h with hmay | ⟨may, w, hmay, h⟩
  · have hsame := ((looking.mayWrite (fun _ _ => trivial) _ _).fails hmay).1
    exact .inl (hsame.tree ▸ .refl _ _)
  · obtain ⟨hsame, hleave⟩ := returns_mayWrite hdry hmay
    cases may with
    | false => cases h
    | true =>
      rcases fails_bind h with hwrite | ⟨written, r, hwrite, h⟩
      · rcases fails_setupWrite hdry hwrite with hpaved | hstores
        · exact .inl (hsame.tree ▸ hpaved)
        · exact .inr ⟨.behind hsame hstores, hleave⟩
      · obtain ⟨rfl, -⟩ := returns_setupWrite hdry hwrite
        cases h

theorem fails_exists? {path : Path} {failure : Failure} (h : exists? path u = .error failure v) :
    u = v := by
  rw [exists?, bind_run (show (get : Command Session) u = .ok u u from rfl)] at h
  cases hprobe : u.tree.probe path <;> rw [hprobe] at h <;> cases h
  rfl

theorem run_readText (path : Path) (u : Session) : readText path u =
    match u.tree.read path with
    | .ok (some text) => .ok text u
    | .ok none => .error .undecodable u
    | .error e => .error (.file e) u := by
  rw [readText, bind_run (show (get : Command Session) u = .ok u u from rfl)]
  cases hread : u.tree.read path with
  | error e => rfl
  | ok text => cases text <;> rfl

/-- The turn of the environment file: it is written like any other file if it is missing or the setup
is forced, is left alone if it mentions the variable, and is added to otherwise. -/
theorem writeEnvFile_cases (root : Path) (options : Setup.Options) (u : Session) :
    (∃ failure, writeEnvFile root options u = .error failure u) ∨
    ((u.tree.probe (root ++ [envExampleFile]) = .ok false ∨ options.force = true) ∧
      writeEnvFile root options u =
        writeSetupFile root options envExampleFile (envFile options) u) ∨
    (u.tree.probe (root ++ [envExampleFile]) = .ok true ∧ options.force = false ∧
      ∃ old, u.tree.read (root ++ [envExampleFile]) = .ok (some old) ∧
        writeEnvFile root options u = (if Text.occursIn options.driver.envVar old then
          report .skip (root ++ [envExampleFile]) >>= fun _ => pure []
        else writeFile (setupWrites options) (root ++ [envExampleFile])
          (mergeEnv old (envFile options)) >>= fun written =>
            pure (if written then [envExampleFile ++ " (updated)"] else [])) u) := by
  have hlook : writeEnvFile root options u = (exists? (root ++ [envExampleFile]) >>= fun there =>
      if there && !options.force then
        readText (root ++ [envExampleFile]) >>= fun old =>
          if Text.occursIn options.driver.envVar old then
            report .skip (root ++ [envExampleFile]) >>= fun _ => pure []
          else writeFile (setupWrites options) (root ++ [envExampleFile])
            (mergeEnv old (envFile options)) >>= fun written =>
              pure (if written then [envExampleFile ++ " (updated)"] else [])
      else writeSetupFile root options envExampleFile (envFile options)) u := by
    refine congrFun (bind_congr fun there => ?_) u
    split
    · refine bind_congr fun old => ?_
      split
      · rfl
      · refine bind_congr fun written => ?_
        cases written <;> rfl
    · rfl
  rw [hlook]
  cases hask : exists? (root ++ [envExampleFile]) u with
  | error failure w =>
    rw [run_bind, hask, fails_exists? hask]
    exact .inl ⟨failure, rfl⟩
  | ok there w =>
    obtain ⟨hthere, rfl⟩ := returns_exists? hask
    rw [bind_run hask]
    by_cases hadd : (there && !options.force) = true
    · rw [if_pos hadd, run_bind, run_readText]
      have hadd : there = true ∧ options.force = false := by simpa using hadd
      cases hread : u.tree.read (root ++ [envExampleFile]) with
      | error e => exact .inl ⟨_, rfl⟩
      | ok text =>
        cases text with
        | none => exact .inl ⟨_, rfl⟩
        | some old => exact .inr (.inr ⟨hadd.1 ▸ hthere, hadd.2, old, rfl, rfl⟩)
    · rw [if_neg hadd]
      refine .inr (.inl ⟨?_, rfl⟩)
      cases there with
      | false => exact .inl hthere
      | true => exact .inr (by simpa using hadd)

theorem envItem_path (root : Path) (options : Setup.Options) :
    (envItem options).path root = root ++ [envExampleFile] := by
  have hparse : Path.parse envExampleFile = [envExampleFile] :=
    parse_name (by decide) (by decide) (by decide)
  rw [Item.path, envItem, hparse]

theorem Granted.leave (hplain : e.merges = false) (h : Granted options (e.path root) u) :
    Leave root options e u e.content := by
  rcases h with hfree | hforce | ⟨hthere, hyes⟩
  · exact .free hfree
  · exact .forced hforce
  · exact .agreed hplain hthere hyes

theorem Refused.no_leave (hplain : e.merges = false) (h : Refused options (e.path root) u)
    (text : String) : ¬ Leave root options e u text := by
  intro hleave
  cases hleave with
  | free hfree => exact h.not_granted (.inl hfree)
  | forced hforce => exact h.not_granted (.inr (.inl hforce))
  | agreed _ hthere hyes => exact h.not_granted (.inr (.inr ⟨hthere, hyes⟩))
  | added hmerges => rw [hplain] at hmerges; cases hmerges

theorem writeItem_plain (hplain : e.merges = false) :
    writeItem root options e = writeSetupFile root options e.file e.content := by
  rw [writeItem, hplain]
  exact if_neg (by simp)

/-- What the environment file may hold afterwards is known before its turn. -/
theorem added_iff {text : String} {old : String}
    (hthere : u.tree.probe (root ++ [envExampleFile]) = .ok true) (hforce : options.force = false)
    (hread : u.tree.read (root ++ [envExampleFile]) = .ok (some old)) :
    Leave root options (envItem options) u text ↔
      Text.occursIn options.driver.envVar old = false ∧ text = mergeEnv old (envFile options) := by
  rw [← envItem_path root options] at hthere hread
  constructor
  · intro hleave
    cases hleave with
    | free hfree =>
      rw [hthere] at hfree
      cases hfree
    | forced hforced =>
      rw [hforce] at hforced
      cases hforced
    | agreed hplain => cases hplain
    | added _ _ hold hlacks =>
      rw [hread] at hold
      cases hold
      exact ⟨hlacks, rfl⟩
  · rintro ⟨hlacks, rfl⟩
    exact .added rfl hforce hread hlacks

/-- A turn that succeeds either had no leave and changed nothing, or stored the text that it had leave
to write. -/
theorem returns_writeItem (hdry : options.dryRun = false) (he : e ∈ items options)
    {names : List String} (h : writeItem root options e u = .ok names v) :
    (names = [] ∧ u.SameFiles v ∧ ∀ text, ¬ Leave root options e u text) ∨
      ∃ text name, names = [name] ∧ fileOf name = e.file ∧ Leave root options e u text ∧
        Stores (e.path root) text u v := by
  rcases (item_cases he).1 with hplain | rfl
  · rw [writeItem_plain hplain] at h
    rcases returns_writeSetupFile hdry h with ⟨hnames, hsame, hrefused⟩ | ⟨hnames, hstores, hgranted⟩
    · exact .inl ⟨hnames, hsame, hrefused.no_leave hplain⟩
    · exact .inr ⟨_, _, hnames, fileOf_item he, hgranted.leave hplain, hstores⟩
  · have h : writeEnvFile root options u = .ok names v := h
    have hpath := envItem_path root options
    rcases writeEnvFile_cases root options u with ⟨failure, hrun⟩ | ⟨hfree, hrun⟩ |
      ⟨hthere, hforce, old, hread, hrun⟩ <;> rw [hrun] at h
    · cases h
    · have hleave : Leave root options (envItem options) u (envFile options) := by
        rw [← hpath] at hfree
        exact hfree.elim .free .forced
      rcases returns_writeSetupFile hdry h with ⟨-, -, hrefused⟩ | ⟨hnames, hstores, -⟩
      · obtain ⟨hthere, hforce, -⟩ := hrefused
        have hpath : root ++ Path.parse envExampleFile = root ++ [envExampleFile] := hpath
        rw [hpath] at hthere
        rw [hthere, hforce] at hfree
        rcases hfree with hfree | hfree <;> cases hfree
      · exact .inr ⟨_, _, hnames, fileOf_item he, hleave, hstores⟩
    · split at h
      · rename_i hmentions
        obtain ⟨_, w, hreport, h⟩ := returns_bind h
        cases h
        refine .inl ⟨rfl, returns_report hreport, fun text hleave => ?_⟩
        rw [added_iff hthere hforce hread, hmentions] at hleave
        cases hleave.1
      · rename_i hlacks
        obtain ⟨written, w, hwrite, h⟩ := returns_bind h
        obtain ⟨rfl, hstores⟩ := returns_setupWrite hdry hwrite
        cases h
        refine .inr ⟨_, _, rfl, rfl, (added_iff hthere hforce hread).mpr ⟨?_, rfl⟩, ?_⟩
        · simpa using hlacks
        · rw [hpath]
          exact hstores

/-- A turn that fails may have made directories, or stored the text that it had leave to write. -/
theorem fails_writeItem (hdry : options.dryRun = false) (he : e ∈ items options)
    {failure : Failure} (h : writeItem root options e u = .error failure v) :
    Paved u.tree v.tree (e.path root).dropLast ∨
      ∃ text, Leave root options e u text ∧ Stores (e.path root) text u v := by
  rcases (item_cases he).1 with hplain | rfl
  · rw [writeItem_plain hplain] at h
    rcases fails_writeSetupFile hdry h with hpaved | ⟨hstores, hgranted⟩
    · exact .inl hpaved
    · exact .inr ⟨_, hgranted.leave hplain, hstores⟩
  · have h : writeEnvFile root options u = .error failure v := h
    have hpath := envItem_path root options
    rcases writeEnvFile_cases root options u with ⟨failure, hrun⟩ | ⟨hfree, hrun⟩ |
      ⟨hthere, hforce, old, hread, hrun⟩ <;> rw [hrun] at h
    · cases h
      exact .inl (.refl _ _)
    · have hleave : Leave root options (envItem options) u (envFile options) := by
        rw [← hpath] at hfree
        exact hfree.elim .free .forced
      rcases fails_writeSetupFile hdry h with hpaved | ⟨hstores, -⟩
      · exact .inl hpaved
      · exact .inr ⟨_, hleave, hstores⟩
    · split at h
      · rcases fails_bind h with hreport | ⟨_, _, _, h⟩
        · have hsame := ((looking.report _ _).fails hreport).1
          exact .inl (hsame.tree ▸ .refl _ _)
        · cases h
      · rename_i hlacks
        rcases fails_bind h with hwrite | ⟨_, _, _, h⟩
        · rw [hpath]
          rcases fails_setupWrite hdry hwrite with hpaved | hstores
          · exact .inl hpaved
          · have hlacks : Text.occursIn options.driver.envVar old = false := by simpa using hlacks
            exact .inr ⟨_, (added_iff hthere hforce hread).mpr ⟨hlacks, rfl⟩, hstores⟩
        · cases h

end Command
end SchemaScaffold
