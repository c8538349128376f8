import SchemaScaffold.Command.Wizard
import SchemaScaffold.Proofs.Session.Writes

/-!
Laws of setups. Asking, looking at the package file and showing what comes next move nothing; writing
the files of a setup, adding scripts and starting commands need leave to do so. None of them fails
with a fault of the request, which is checked before.
-/

namespace SchemaScaffold.Command

open Setup

variable {α : Type} {move : Session → Session → Prop} {may : Failure → Prop}

/-- Every failure but the library's own is let through. -/
def Lenient (may : Failure → Prop) : Prop := ∀ e : Failure, e.isOwn = false → may e

/-- A law that lets a command start others. -/
def Starts (move : Session → Session → Prop) : Prop := ∀ s started, move s { s with started }

/-! ## Questions -/

theorem Law.nextLine? (law : Law move may) : Obeys move may nextLine? := by
  refine law.bind law.get fun s => ?_
  cases s.input with
  | nil => exact law.pure none
  | cons line input =>
    exact law.bind (.of_ok (fun _ => rfl) fun _ => law.quiet ⟨rfl, rfl, rfl, rfl⟩) fun _ =>
      law.pure _

theorem Law.askUpTo (law : Law move may) {question : Question α} (hended : may question.ended)
    (count : Nat) : Obeys move may (askUpTo question count) := by
  induction count with
  | zero => exact law.bind (law.print _) fun _ => law.throw hended
  | succ count ih =>
    refine law.bind (law.print _) fun _ => law.bind law.nextLine? fun line => ?_
    cases line with
    | none => exact law.throw hended
    | some line =>
      dsimp only
      cases question.accept line with
      | ok value =>
        exact law.bind law.get fun _ =>
          .ite (law.bind (law.print _) fun _ => law.pure value) (law.pure value)
      | error complaint =>
        have hrest := law.bind (law.print complaint) fun _ => ih
        exact law.bind law.get fun _ => .ite (law.bind (law.print _) fun _ => hrest) hrest

theorem Law.ask (law : Law move may) {question : Question α} (hended : may question.ended) :
    Obeys move may (ask question) :=
  law.bind law.get fun _ => law.askUpTo hended _

theorem Law.askLaidOut (law : Law move may) {question : Question α} (hended : may question.ended) :
    Obeys move may (askLaidOut question) :=
  law.bind law.get fun _ => law.ask hended

theorem Law.confirm (law : Law move may) (hmay : Lenient may) (text : String) :
    Obeys move may (confirm text) :=
  law.ask (hmay _ rfl)

theorem Law.choose (law : Law move may) (hmay : Lenient may) (text : String) (name : α → String)
    (choices : List α) (standard : α) : Obeys move may (choose text name choices standard) :=
  law.askLaidOut (hmay _ rfl)

theorem Law.agree (law : Law move may) (hmay : Lenient may) (text : String) (standard : Bool) :
    Obeys move may (agree text standard) :=
  law.askLaidOut (hmay _ rfl)

/-! ## The package file -/

theorem Law.readPackage? (law : Law move may) (hmay : Lenient may) (root : Path) :
    Obeys move may (readPackage? root) := by
  refine law.bind (law.readText (hmay _ rfl) _) fun text => ?_
  cases Json.parse text with
  | ok v => exact law.pure _
  | error e =>
    cases e with
    | malformed => exact law.pure _
    | integerTooLong => exact law.throw (hmay _ rfl)
    | nestedTooDeeply => exact law.throw (hmay _ rfl)

theorem Law.isNextProject (law : Law move may) (hmay : Lenient may) (root : Path) :
    Obeys move may (isNextProject root) := by
  refine law.bind law.get fun _ => .ite (law.pure _) (.ite (law.pure _) ?_)
  refine law.bind (law.readPackage? hmay root) fun package => ?_
  cases package with
  | none => exact law.pure _
  | some v => exact law.lift (fun _ => hmay _ rfl) _

theorem Law.addScripts (law : Law move may) (hmay : Lenient may) {root : Path}
    (hstore : ∀ text, Obeys move may (Command.store (root ++ [packageFile]) text)) :
    Obeys move may (addScripts root) := by
  refine law.bind (law.exists? _) fun _ => ?_
  dsimp only
  refine .ite (law.bind (law.say _) fun _ => law.pure _) ?_
  refine law.bind (law.readPackage? hmay root) fun package => ?_
  cases package with
  | none => exact law.bind (law.say _) fun _ => law.pure _
  | some v =>
    refine law.bind (law.lift (fun _ => hmay _ rfl) _) fun _ => ?_
    exact .ite (law.bind (hstore _) fun _ => law.bind (law.say _) fun _ => law.pure _)
      (law.pure _)

/-! ## Setting up -/

theorem Law.start (law : Law move may) (hstarts : Starts move) (root : Path) (command : List String) :
    Obeys move may (start root command) :=
  law.bind (.of_ok (fun _ => rfl) fun s => hstarts s _) fun _ => law.bind law.get fun _ => law.pure _

theorem Law.install (law : Law move may) (hstarts : Starts move) (root : Path) (driver : Driver)
    (manager : PackageManager) : Obeys move may (install root driver manager) := by
  have hup : ∀ commands, Obeys move may (installUpTo root commands) := by
    intro commands
    induction commands with
    | nil => exact law.pure true
    | cons command commands ih =>
      exact law.bind (law.say _) fun _ => law.bind (law.start hstarts _ _) fun _ =>
        .ite ih (law.pure _)
  refine law.bind (hup _) fun installed => ?_
  dsimp only
  exact .ite (law.bind (law.say _) fun _ => law.pure _) (law.pure _)

theorem Law.mayWrite (law : Law move may) (hmay : Lenient may) (options : Setup.Options)
    (path : Path) : Obeys move may (mayWrite options path) := by
  refine law.bind (law.exists? path) fun _ => .ite (law.pure _) ?_
  exact law.bind (law.confirm hmay _) fun _ =>
    .ite (law.pure _) (law.bind (law.report _ _) fun _ => law.pure _)

theorem Law.writeSetupFile (law : Law move may) (hmay : Lenient may) {options : Setup.Options}
    (hedits : options.dryRun = true ∨ Edits move) (root : Path) (file content : String) :
    Obeys move may (writeSetupFile root options file content) := by
  refine law.bind (law.mayWrite hmay _ _) fun _ => ?_
  dsimp only
  exact .ite (law.bind (law.writeFile hedits _ _) fun _ => .ite (law.pure _) (law.pure _))
    (law.pure _)

theorem Law.writeEnvFile (law : Law move may) (hmay : Lenient may) {options : Setup.Options}
    (hedits : options.dryRun = true ∨ Edits move) (root : Path) : Obeys move may (writeEnvFile root options) := by
  refine law.bind (law.exists? _) fun _ => ?_
  dsimp only
  refine .ite (law.bind (law.readText (hmay _ rfl) _) fun _ => ?_)
    (law.writeSetupFile hmay hedits _ _ _)
  exact .ite (law.bind (law.report _ _) fun _ => law.pure _)
    (law.bind (law.writeFile hedits _ _) fun _ => .ite (law.pure _) (law.pure _))

theorem Law.writeSetupFiles (law : Law move may) (hmay : Lenient may) {options : Setup.Options}
    (hedits : options.dryRun = true ∨ Edits move) (root : Path) (files : List (String × String)) :
    Obeys move may (writeSetupFiles root options files) :=
  law.bind (law.mapM (fun _ => law.writeSetupFile hmay hedits _ _ _) _) fun _ => law.pure _

theorem Law.createFiles (law : Law move may) (hmay : Lenient may) {options : Setup.Options}
    (hedits : options.dryRun = true ∨ Edits move) (root : Path) : Obeys move may (createFiles root options) := by
  have hafter : ∀ before env : List String, Obeys move may (do
      let after ← Command.writeSetupFiles root options (filesAfter options)
      return before ++ env ++ after) := fun _ _ =>
    law.bind (law.writeSetupFiles hmay hedits _ _) fun _ => law.pure _
  refine law.bind (law.writeSetupFiles hmay hedits _ _) fun before => ?_
  dsimp only
  exact .ite (law.bind (law.writeEnvFile hmay hedits _) fun env => hafter before env)
    (hafter before [])

theorem Law.saySummary (law : Law move may) (options : Setup.Options) (manager : PackageManager)
    (created : List String) (installed : Bool) :
    Obeys move may (saySummary options manager created installed) := by
  have hpanel : ∀ title body, Obeys move may (sayPanel title body) := fun _ _ =>
    law.bind law.get fun _ => law.print _
  have hrest : ∀ title body farewell, Obeys move may (do
      sayPanel title body
      Command.say farewell) := fun _ _ _ => law.bind (hpanel _ _) fun _ => law.say _
  refine law.bind (hpanel _ _) fun _ => ?_
  dsimp only
  exact .ite (law.bind (hpanel _ _) fun _ => hrest _ _ _) (hrest _ _ _)

/-- What a setup does once it dealt with its files. -/
def finishSetup (root : Path) (options : Setup.Options) (manager : PackageManager)
    (created : List String) : Command Unit :=
  if options.dryRun then say "\nDry run complete. No files were written.\n"
  else if created.isEmpty then say "\nNo files were created. All files already exist.\n"
  else do
    let _ ← addScripts root
    let installed ← if options.install then install root options.driver manager else pure false
    saySummary options manager created installed

theorem setUp_eq (root : Path) (options : Setup.Options) : setUp root options = (do
    let manager := Detection.manager (← get).tree root
    let created ← createFiles root options
    finishSetup root options manager created
    return created) := by
  unfold setUp
  refine bind_congr fun s => bind_congr fun created => ?_
  unfold finishSetup
  split
  · rfl
  · split
    · rfl
    · rw [bind_assoc]
      refine bind_congr fun _ => ?_
      cases options.install <;> simp

/-- It touches nothing if nothing was written. -/
theorem Law.finishSetup_idle (law : Law move may) (root : Path) {options : Setup.Options}
    (manager : PackageManager) {created : List String}
    (h : options.dryRun = true ∨ created = []) :
    Obeys move may (finishSetup root options manager created) := by
  unfold finishSetup
  rcases h with hdry | rfl
  · rw [if_pos hdry]
    exact law.say _
  · exact .ite (law.say _) (law.say _)

theorem Law.finishSetup (law : Law move may) (hmay : Lenient may) {root : Path}
    (hstore : ∀ text, Obeys move may (Command.store (root ++ [packageFile]) text)) (hstarts : Starts move)
    (options : Setup.Options) (manager : PackageManager) (created : List String) :
    Obeys move may (finishSetup root options manager created) := by
  refine .ite (law.say _) (.ite (law.say _) ?_)
  refine law.bind (law.addScripts hmay hstore) fun _ => ?_
  exact .ite (law.bind (law.install hstarts _ _ _) fun _ => law.saySummary _ _ _ _)
    (law.bind (law.pure _) fun _ => law.saySummary _ _ _ _)

/-- A setup needs leave to change the tree and to start commands, unless it is a dry run. -/
theorem Law.setUp (law : Law move may) (hmay : Lenient may) {options : Setup.Options}
    (hedits : options.dryRun = true ∨ (Edits move ∧ Starts move)) (root : Path) :
    Obeys move may (setUp root options) := by
  rw [setUp_eq]
  refine law.bind law.get fun s =>
    law.bind (law.createFiles hmay (hedits.imp id (·.1)) _) fun created => law.bind ?_ fun _ => law.pure _
  rcases hedits with hdry | ⟨hedits, hstarts⟩
  · exact law.finishSetup_idle root _ (.inl hdry)
  · exact law.finishSetup hmay (fun _ => law.store hedits _ _) hstarts _ _ _

/-! ## Choosing a setup -/

theorem Law.databaseFolder (law : Law move may) (hmay : Lenient may) (root : Path) :
    Obeys move may (databaseFolder root) :=
  law.bind law.get fun _ => law.bind (law.lift (fun _ => hmay _ rfl) _) fun _ => law.pure _

theorem Law.askSetup (law : Law move may) (hmay : Lenient may) (root : Path) :
    Obeys move may (askSetup root) := by
  have hnext : Obeys move may (askWhetherNext root) := by
    refine law.bind (law.isNextProject hmay root) fun _ => ?_
    refine .ite (law.pure _) (law.bind (law.say _) fun _ => law.bind (law.agree hmay _ _) fun _ => ?_)
    exact .ite (law.pure _) (law.bind (law.say _) fun _ => law.pure _)
  have hdialect : Obeys move may askDialect :=
    law.bind (law.forM (fun _ => law.say _) _) fun _ => law.choose hmay _ _ _ _
  have hdriver : ∀ dialect, Obeys move may (askDriver dialect) := fun _ =>
    law.bind (law.forM (fun _ => law.say _) _) fun _ => law.choose hmay _ _ _ _
  have hlast : ∀ dialect driver dbPath writeEnv writeCompose, Obeys move may (do
      let install ← Command.agree "Install dependencies now?" true
      return some ({ dialect, driver, dbPath, writeEnv, writeCompose, install } : Setup.Options)) :=
    fun _ _ _ _ _ => law.bind (law.agree hmay _ _) fun _ => law.pure _
  refine law.bind (law.say _) fun _ => law.bind hnext fun _ => ?_
  dsimp only
  refine .ite (law.pure _) (law.bind hdialect fun _ => law.bind (hdriver _) fun _ => ?_)
  refine law.bind (law.databaseFolder hmay root) fun _ =>
    law.bind (law.askLaidOut (hmay _ rfl)) fun _ => law.bind (law.agree hmay _ _) fun _ => ?_
  exact .ite (law.bind (law.agree hmay _ _) fun _ => hlast _ _ _ _ _) (hlast _ _ _ _ _)

end SchemaScaffold.Command
