import SchemaScaffold.Proofs.Command.DryRuns

/-!
The same command from the same files. What a command writes hangs on the files it finds and on
nothing else that a session holds, so one run tells of another that starts from the same files.
-/

namespace SchemaScaffold

open Generated Generate

namespace Command

variable {α : Type}

/-- A command that does the same from the same files, whenever it succeeds. -/
abbrev Steady (x : Command α) : Prop := Follows Session.SameFiles Session.SameFiles x x

theorem same_side : Side Session.SameFiles :=
  ⟨fun h _ hd => h.directory ▸ hd, fun h hs ht => hs.symm.trans (h.trans ht)⟩

theorem steady_pure (a : α) : Steady (pure a) :=
  .pure (fun _ _ => id) a

theorem Reads.steady {x : Command α} (h : Reads x) : Steady x := by
  intro s t hsame a u hrun
  have ht : value x t = .ok a := value_eq_ok hrun
  have hs : value x s = .ok a := (h.same s t hsame).symm.trans ht
  exact ⟨_, run_eq_ok hs, (h.looks.moves s).symm.trans (hsame.trans (h.looks.returns hrun))⟩

theorem steady_change (edit : Tree → Except FileError Tree) : Steady (change edit) := by
  intro s t hsame _ u hrun
  obtain ⟨tree, hedit, rfl⟩ := returns_change hrun
  refine ⟨{ s with tree }, ?_, hsame.base, rfl, hsame.directory, hsame.started⟩
  rw [hsame.tree] at hedit
  have hrun : change edit s = (Command.lift .file (edit s.tree) >>= fun tree =>
    modify fun session => { session with tree }) s := rfl
  rw [hrun, hedit]
  rfl

theorem steady_makeDirectoriesUpTo (count : Nat) (path : Path) :
    Steady (makeDirectoriesUpTo count path) := by
  induction count generalizing path with
  | zero => exact steady_change _
  | succ count ih =>
    intro s t hsame a u hrun
    rw [makeDirectoriesUpTo_succ] at hrun ⊢
    have hbody : ∀ missing : Bool, Steady
        ((if missing then makeDirectoriesUpTo count path.dropLast else pure ()) >>= fun _ =>
          change (·.makeDirectory path)) := by
      intro missing
      refine .bind ?_ fun _ => steady_change _
      cases missing with
      | true => exact ih _
      | false => exact steady_pure _
    have htail := hbody (t.tree.locate path == .nowhere .missing) s t hsame a u (returns_get hrun)
    rw [hsame.tree] at htail
    exact htail

theorem steady_store (path : Path) (content : String) : Steady (store path content) :=
  .bind (steady_makeDirectoriesUpTo _ _) fun _ => steady_change _

theorem steady_writeFile (options : WriteOptions) (path : Path) (content : String) :
    Steady (writeFile options path content) := by
  refine .bind (Reads.exists? path).steady fun there => ?_
  split
  · exact .bind (same_side.report _ _ _) fun _ => steady_pure _
  · split
    · exact .bind (same_side.report _ _ _) fun _ => steady_pure _
    · exact .bind (steady_store _ _) fun _ => .bind (same_side.report _ _ _) fun _ => steady_pure _

theorem steady_updateFile (options : WriteOptions) (path : Path) (content : String) :
    Steady (updateFile options path content) := by
  refine .bind (Reads.exists? path).steady fun there => ?_
  split
  · exact same_side.report _ _ _
  · exact .bind (steady_store _ _) fun _ => same_side.report _ _ _

theorem steady_writeModules (options : WriteOptions) (modules : List Module) :
    Steady (writeModules options modules) := by
  have hfiles : Steady (modules.mapM fun m : Module => do
      let written ← writeFile options m.path m.content
      return ({ path := m.path, template := some m.template, written } : File)) := by
    induction modules with
    | nil => exact steady_pure _
    | cons m modules ih =>
      rw [List.mapM_cons]
      exact .bind (.bind (steady_writeFile _ _ _) fun _ => steady_pure _) fun _ =>
        .bind ih fun _ => steady_pure _
  exact .bind hfiles fun _ => steady_pure _

/-! ## Other texts -/

/-- A text can be written wherever another can. -/
theorem standing_write (path : Path) (content other : String) :
    Follows Session.SameFiles Standing (change (·.write path content)) (change (·.write path other)) := by
  have hwrite : ∀ {t u : Tree}, t.write path other = .ok u → ∃ v, t.write path content = .ok v := by
    intro t u h
    unfold Tree.write at h ⊢
    split at h
    · exact ⟨_, rfl⟩
    · exact ⟨_, rfl⟩
    · cases h
    · cases h
  intro s t hsame _ u hrun
  obtain ⟨tree, hother, rfl⟩ := returns_change hrun
  obtain ⟨tree', hedit⟩ := hwrite hother
  refine ⟨{ s with tree := tree' }, ?_, fun d hd => hsame.directory ▸ hd⟩
  rw [hsame.tree] at hedit
  show (Command.lift .file (s.tree.write path content) >>= fun tree =>
    modify fun session => { session with tree }) s = _
  rw [hedit]
  rfl

/-- So a module is written or skipped whatever its text is. -/
theorem standing_writeFile (options : WriteOptions) (path : Path) (content other : String) :
    Follows Session.SameFiles Standing (writeFile options path content)
      (writeFile options path other) := by
  have hstands : ∀ s t : Session, s.SameFiles t → Standing s t := fun _ _ h => same_side.directory h
  refine .bind (Reads.exists? path).steady fun there => ?_
  split
  · exact .bind (same_side.report _ _ _) fun _ => .pure hstands _
  · split
    · exact .bind (same_side.report _ _ _) fun _ => .pure hstands _
    · refine .bind (.bind (steady_makeDirectoriesUpTo _ _) fun _ => standing_write _ _ _) fun _ => ?_
      exact .bind (Standing.side.report _ _ _) fun _ => .pure (fun _ _ => id) _

end Command

namespace Generation

open Command Naming

theorem steady_putTable (project : Project) (options : WriteOptions) (names : ModelNames)
    (merge : Schema.Merge) : Steady (putTable project options names merge) := by
  unfold putTable
  split
  · exact steady_updateFile _ _ _
  · exact .bind (same_side.report _ _ _) fun _ => same_side.say _ _

end Generation
end SchemaScaffold
