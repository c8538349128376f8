import SchemaScaffold.Proofs.Project.Growth
import SchemaScaffold.Proofs.Session.Writes

/-!
Writing a file that is there. A command that writes files leaves each of them where it looks for it,
so the same command finds it the next time; and a command that finds its file leaves everything
alone.
-/

namespace SchemaScaffold

open SchemaScaffold.Tree SchemaScaffold.Path

/-- The tree grew by files of the given names, and the working directory is the same. -/
structure Session.Grew (names : List String) (s t : Session) : Prop where
  directory : t.directory = s.directory
  tree : Tree.Grew names s.tree t.tree

/-- A file is there, and there is a working directory to see it from. -/
structure Session.Shows (s : Session) (path : Path) : Prop where
  there : s.tree.probe path = .ok true
  directory : s.directory.isSome = true

namespace Session

variable {names : List String} {s t u : Session}

theorem Grew.of_sameFiles (h : s.SameFiles t) : s.Grew names t :=
  ⟨h.directory, h.tree ▸ .refl _⟩

theorem Grew.trans (h : s.Grew names t) (k : t.Grew names u) : s.Grew names u :=
  ⟨k.directory.trans h.directory, h.tree.trans k.tree⟩

theorem Grew.weaken {more : List String} (h : s.Grew names t) (hmore : names ⊆ more) :
    s.Grew more t :=
  ⟨h.directory, h.tree.weaken hmore⟩

theorem Shows.grew {path : Path} (h : s.Shows path) (k : s.Grew names t) : t.Shows path :=
  ⟨k.tree.probe h.there, k.directory ▸ h.directory⟩

end Session

namespace Command

variable {α β : Type} {names : List String} {s t u : Session}

/-! ## What writing leaves -/

theorem directory_of_report {status : Status} {path : Path} (h : report status path s = .ok () t) :
    s.directory.isSome = true := by
  obtain ⟨_, _, hwork, -⟩ := returns_bind h
  cases hdir : s.directory with
  | some directory => rfl
  | none =>
    rw [run_workingDirectory_gone hdir] at hwork
    cases hwork

theorem grew_makeDirectoriesUpTo {count : Nat} {path : Path}
    (h : makeDirectoriesUpTo count path s = .ok () t) : s.Grew names t := by
  have hmake : ∀ {path : Path} {s t : Session}, change (·.makeDirectory path) s = .ok () t →
      s.Grew names t := by
    intro path s t h
    obtain ⟨tree, hedit, rfl⟩ := returns_change h
    exact ⟨rfl, grew_makeDirectory hedit⟩
  induction count generalizing path s t with
  | zero => exact hmake h
  | succ count ih =>
    rw [makeDirectoriesUpTo_succ] at h
    obtain ⟨_, u, habove, h⟩ := returns_bind (returns_get h)
    split at habove
    · exact (ih habove).trans (hmake h)
    · cases habove
      exact hmake h

/-- A stored file is read back. -/
theorem grew_store {path : Path} {content : String} (h : store path content s = .ok () t) :
    s.Grew [name path] t ∧ t.tree.read path = .ok (some (Text.withLineFeeds content)) := by
  obtain ⟨_, u, hmake, h⟩ := returns_bind h
  obtain ⟨tree, hwrite, rfl⟩ := returns_change h
  obtain ⟨hgrew, hread⟩ := grew_write hwrite
  exact ⟨(grew_makeDirectoriesUpTo hmake).trans ⟨rfl, hgrew⟩, hread⟩

theorem grew_updateFile {options : WriteOptions} (hdry : options.dryRun = false) {path : Path}
    {content : String} (h : updateFile options path content s = .ok () t) :
    s.Grew [name path] t ∧ t.Shows path ∧
      t.tree.read path = .ok (some (Text.withLineFeeds content)) := by
  obtain ⟨there, _, hask, h⟩ := returns_bind h
  obtain ⟨-, rfl⟩ := returns_exists? hask
  rw [if_neg (by simp [hdry])] at h
  obtain ⟨_, u, hstore, h⟩ := returns_bind h
  obtain ⟨hgrew, hread⟩ := grew_store hstore
  have hsame := returns_report h
  have hread : t.tree.read path = .ok (some (Text.withLineFeeds content)) := hsame.tree ▸ hread
  refine ⟨hgrew.trans (.of_sameFiles hsame), ⟨probe_of_read hread, ?_⟩, hread⟩
  rw [hsame.directory]
  exact directory_of_report h

/-- Whether it was written or skipped, a file is there afterwards. -/
theorem grew_writeFile {options : WriteOptions} (hdry : options.dryRun = false) {path : Path}
    {content : String} {written : Bool} (h : writeFile options path content s = .ok written t) :
    s.Grew [name path] t ∧ t.Shows path := by
  obtain ⟨there, _, hask, h⟩ := returns_bind h
  obtain ⟨hthere, rfl⟩ := returns_exists? hask
  split at h
  · rename_i hskip
    obtain ⟨_, u, hreport, h⟩ := returns_bind h
    cases h
    have hsame := returns_report hreport
    have hyes : there = true := (Bool.and_eq_true_iff.mp hskip).1
    refine ⟨.of_sameFiles hsame, hsame.tree ▸ hyes ▸ hthere, ?_⟩
    rw [hsame.directory]
    exact directory_of_report hreport
  · rw [if_neg (by simp [hdry])] at h
    obtain ⟨_, u, hstore, h⟩ := returns_bind h
    obtain ⟨_, v, hreport, h⟩ := returns_bind h
    cases h
    obtain ⟨hgrew, hread⟩ := grew_store hstore
    have hsame := returns_report hreport
    refine ⟨hgrew.trans (.of_sameFiles hsame), hsame.tree ▸ probe_of_read hread, ?_⟩
    rw [hsame.directory]
    exact directory_of_report hreport

/-- A file that was written is found with its text. -/
theorem locate_writeFile {options : WriteOptions} (hdry : options.dryRun = false) {path : Path}
    {content : String} (h : writeFile options path content s = .ok true t) :
    ∃ place, t.tree.locate path = .found place (.file (.text content)) := by
  obtain ⟨there, _, -, h⟩ := returns_bind h
  split at h
  · obtain ⟨_, _, -, h⟩ := returns_bind h
    cases h
  · rw [if_neg (by simp [hdry])] at h
    obtain ⟨_, u, hstore, h⟩ := returns_bind h
    obtain ⟨_, v, hreport, h⟩ := returns_bind h
    cases h
    obtain ⟨_, r, -, hchange⟩ := returns_bind hstore
    obtain ⟨tree, hwrite, rfl⟩ := returns_change hchange
    rw [(returns_report hreport).tree]
    exact locate_write hwrite

/-! ## Commands that leave everything alone -/

/-- A command that succeeds with a value and leaves the files alone. -/
def Idle (x : Command α) (s : Session) (a : α) : Prop := ∃ t, x s = .ok a t ∧ s.SameFiles t

theorem Idle.pure (a : α) (s : Session) : Idle (pure a) s a := ⟨s, rfl, .rfl⟩

theorem Idle.bind {x : Command α} {f : α → Command β} {a : α} {b : β} (hx : Idle x s a)
    (hf : ∀ t, s.SameFiles t → Idle (f a) t b) : Idle (x >>= f) s b := by
  obtain ⟨t, hrun, hsame⟩ := hx
  obtain ⟨u, hrest, hsame'⟩ := hf t hsame
  exact ⟨u, (bind_run hrun).trans hrest, hsame.trans hsame'⟩

theorem Idle.lift {ε : Type} {failure : ε → Failure} {x : Except ε α} {a : α} (h : x = .ok a)
    (s : Session) : Idle (lift failure x) s a := by
  rw [h]
  exact .pure a s

theorem Idle.say (markup : String) (s : Session) : Idle (say markup) s () :=
  ⟨_, rfl, rfl, rfl, rfl, rfl⟩

theorem Idle.forM {f : α → Command PUnit} {as : List α} (h : ∀ a ∈ as, ∀ t, Idle (f a) t ⟨⟩)
    (s : Session) : Idle (as.forM f) s ⟨⟩ := by
  induction as generalizing s with
  | nil => exact .pure _ _
  | cons a as ih =>
    exact .bind (h a (by simp) s) fun t _ => ih (fun b hb => h b (List.mem_cons_of_mem _ hb)) t

theorem Idle.report (status : Status) (path : Path) (h : s.directory.isSome = true) :
    Idle (report status path) s () := by
  obtain ⟨directory, hdir⟩ := Option.isSome_iff_exists.mp h
  exact .bind ⟨s, run_workingDirectory hdir, .rfl⟩ fun t _ => .say _ t

theorem Idle.exists? {path : Path} {there : Bool} (h : s.tree.probe path = .ok there) :
    Idle (exists? path) s there := by
  have hask : Idle (Command.lift .file (s.tree.probe path)) s there := .lift h s
  exact hask

theorem Idle.readText? {path : Path} {text : String} (h : s.tree.read path = .ok (some text)) :
    Idle (readText? path) s (some text) := by
  refine .bind (.exists? (probe_of_read h)) fun t hsame => ?_
  refine .bind (a := text) ⟨t, ?_, .rfl⟩ fun u _ => .pure _ u
  show (Command.lift .file (t.tree.read path) >>= _) t = _
  rw [hsame.tree, h]
  rfl

/-- A file that is there is skipped. -/
theorem Idle.writeFile {options : WriteOptions} (hforce : options.force = false) {path : Path}
    (h : s.Shows path) (content : String) : Idle (writeFile options path content) s false := by
  refine .bind (.exists? h.there) fun t hsame => ?_
  rw [if_pos (by simp [hforce])]
  exact .bind (.report _ _ (hsame.directory ▸ h.directory)) fun u _ => .pure _ u

end Command
end SchemaScaffold
