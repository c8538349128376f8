import SchemaScaffold.Proofs.Project.Changes
import SchemaScaffold.Proofs.Session.Runs

/-!
What writing and removing files does to a session: the tree changes at the files written and at the
missing directories above them, and nothing else changes but what is shown. A dry run changes no
tree at all.
-/

namespace SchemaScaffold.Command

open SchemaScaffold.Tree SchemaScaffold.Path

variable {α : Type} {move : Session → Session → Prop} {may : Failure → Prop}

/-- A missing directory above is made first. -/
theorem makeDirectoriesUpTo_succ (count : Nat) (path : Path) :
    makeDirectoriesUpTo (count + 1) path = (get >>= fun session =>
      (if session.tree.locate path == .nowhere .missing then makeDirectoriesUpTo count path.dropLast
        else pure ()) >>= fun _ => change (·.makeDirectory path)) := by
  rw [makeDirectoriesUpTo]
  refine bind_congr fun session => ?_
  split
  · rfl
  · rw [pure_bind]

/-! ## However it ends -/

/-- A law that lets a command change the tree. -/
def Edits (move : Session → Session → Prop) : Prop := ∀ s tree, move s { s with tree }

theorem Law.change (law : Law move may) (hedits : Edits move)
    (edit : Tree → Except FileError Tree) : Obeys move may (change edit) :=
  law.bind law.get fun _ => law.bind (law.lift law.file _) fun _ =>
    .of_ok (fun _ => rfl) fun s => hedits s _

theorem Law.makeDirectoriesUpTo (law : Law move may) (hedits : Edits move) (count : Nat) (path : Path) :
    Obeys move may (makeDirectoriesUpTo count path) := by
  induction count generalizing path with
  | zero => exact law.change hedits _
  | succ count ih =>
    rw [makeDirectoriesUpTo_succ]
    exact law.bind law.get fun _ =>
      law.bind (.ite (ih _) (law.pure _)) fun _ => law.change hedits _

theorem Law.store (law : Law move may) (hedits : Edits move) (path : Path) (content : String) :
    Obeys move may (store path content) :=
  law.bind (law.makeDirectoriesUpTo hedits _ _) fun _ => law.change hedits _

/-- A dry run needs no leave to change the tree. -/
theorem Law.writeFile (law : Law move may) {options : WriteOptions}
    (hedits : options.dryRun = true ∨ Edits move) (path : Path) (content : String) :
    Obeys move may (writeFile options path content) := by
  refine law.bind (law.exists? path) fun there => .ite (law.bind (law.report _ _) fun _ => law.pure _) ?_
  rcases hedits with hdry | hedits
  · rw [if_pos hdry]
    exact law.bind (law.report _ _) fun _ => law.pure _
  · exact .ite (law.bind (law.report _ _) fun _ => law.pure _)
      (law.bind (law.store hedits _ _) fun _ => law.bind (law.report _ _) fun _ => law.pure _)

theorem Law.updateFile (law : Law move may) {options : WriteOptions}
    (hedits : options.dryRun = true ∨ Edits move) (path : Path) (content : String) :
    Obeys move may (updateFile options path content) := by
  refine law.bind (law.exists? path) fun there => ?_
  rcases hedits with hdry | hedits
  · rw [if_pos hdry]
    exact law.report _ _
  · exact .ite (law.report _ _) (law.bind (law.store hedits _ _) fun _ => law.report _ _)

/-! ## When it succeeds -/

theorem returns_exists? {path : Path} {there : Bool} {s t : Session}
    (h : exists? path s = .ok there t) : s.tree.probe path = .ok there ∧ s = t :=
  returns_lift (returns_get h)

theorem returns_report {status : Status} {path : Path} {s t : Session}
    (h : report status path s = .ok () t) : s.SameFiles t := by
  have hlaw : Law Session.SameFiles (fun _ => True) :=
    ⟨id, .trans, fun _ => trivial, trivial⟩
  exact (hlaw.report status path).returns h

theorem returns_change {edit : Tree → Except FileError Tree} {s t : Session}
    (h : change edit s = .ok () t) : ∃ tree, edit s.tree = .ok tree ∧ t = { s with tree } := by
  obtain ⟨tree, _, hrun, h⟩ := returns_bind (returns_get h)
  obtain ⟨hedit, rfl⟩ := returns_lift hrun
  cases h
  exact ⟨tree, hedit, rfl⟩

/-- Removing a directory may take the working directory along, and changes nothing else. -/
theorem run_erase (path : Path) (s : Session) : erase path s =
    match s.tree.removeDirectory path with
    | .ok tree => .ok () { s with
        tree, directory := s.directory.filter fun d => !(Path.normalize path).isPrefixOf d }
    | .error e => .error (.file e) s := by
  rw [erase, bind_run (show (get : Command Session) s = .ok s s from rfl)]
  cases s.tree.removeDirectory path <;> rfl

theorem returns_erase {path : Path} {s t : Session} (h : erase path s = .ok () t) :
    ∀ directory, t.directory = some directory → s.directory = some directory := by
  rw [run_erase] at h
  split at h
  · cases h
    exact fun directory hkept => Option.eq_some_of_filter_eq_some hkept
  · cases h

theorem returns_makeDirectoriesUpTo {count : Nat} {path : Path} {s t : Session}
    (hpath : Straight path) (h : makeDirectoriesUpTo count path s = .ok () t) :
    t = { s with tree := t.tree } ∧ Opened s.tree t.tree path := by
  have hmake : ∀ {path : Path} {s t : Session}, Straight path →
      change (·.makeDirectory path) s = .ok () t →
      t = { s with tree := t.tree } ∧ Opened s.tree t.tree path := by
    intro path s t hpath h
    obtain ⟨tree, hedit, rfl⟩ := returns_change h
    exact ⟨rfl, makeDirectory_ok hpath hedit⟩
  induction count generalizing path s t with
  | zero => exact hmake hpath h
  | succ count ih =>
    rw [makeDirectoriesUpTo_succ] at h
    obtain ⟨_, u, habove, h⟩ := returns_bind (returns_get h)
    obtain ⟨ht, hopened⟩ := hmake hpath h
    split at habove
    · obtain ⟨hu, habove⟩ := ih hpath.dropLast habove
      rw [hu] at ht
      exact ⟨ht, (habove.weaken (List.dropLast_prefix path)).trans hopened⟩
    · cases habove
      exact ⟨ht, hopened⟩

/-- Storing a file writes it, with the directories above it. -/
theorem returns_store {path : Path} {content : String} {s t : Session} (hpath : Straight path)
    (h : store path content s = .ok () t) :
    t = { s with tree := t.tree } ∧ Wrote s.tree t.tree [(path, content)] := by
  obtain ⟨_, u, hmake, h⟩ := returns_bind h
  obtain ⟨hu, hopened⟩ := returns_makeDirectoriesUpTo hpath.dropLast hmake
  obtain ⟨tree, hwrite, rfl⟩ := returns_change h
  rw [hu]
  exact ⟨rfl, (hopened.weaken (List.dropLast_prefix path)).wrote (write_ok hpath hwrite)⟩

/-- A file is left alone if it is there and may not be overwritten; otherwise it is written. -/
theorem returns_writeFile {options : WriteOptions} (hdry : options.dryRun = false) {path : Path}
    {content : String} {written : Bool} {s t : Session} (hpath : Straight path)
    (h : writeFile options path content s = .ok written t) :
    (written = false ∧ options.force = false ∧ s.tree.probe path = .ok true ∧ t.tree = s.tree) ∨
      (written = true ∧ (options.force = false → s.tree.probe path = .ok false) ∧
        Wrote s.tree t.tree [(path, content)]) := by
  obtain ⟨there, _, hask, h⟩ := returns_bind h
  obtain ⟨hthere, rfl⟩ := returns_exists? hask
  split at h
  · rename_i hskip
    obtain ⟨hyes, hforce⟩ := Bool.and_eq_true_iff.mp hskip
    obtain ⟨_, u, hreport, h⟩ := returns_bind h
    cases h
    exact .inl ⟨rfl, by simpa using hforce, hyes ▸ hthere, (returns_report hreport).tree⟩
  · rename_i hwrite
    rw [if_neg (by simp [hdry])] at h
    obtain ⟨_, u, hstore, h⟩ := returns_bind h
    obtain ⟨_, v, hreport, h⟩ := returns_bind h
    cases h
    obtain ⟨-, hwrote⟩ := returns_store hpath hstore
    refine .inr ⟨rfl, fun hforce => ?_, (returns_report hreport).tree ▸ hwrote⟩
    rw [show there = false by simpa [hforce] using hwrite] at hthere
    exact hthere

theorem returns_updateFile {options : WriteOptions} (hdry : options.dryRun = false) {path : Path}
    {content : String} {s t : Session} (hpath : Straight path)
    (h : updateFile options path content s = .ok () t) :
    Wrote s.tree t.tree [(path, content)] := by
  obtain ⟨there, _, hask, h⟩ := returns_bind h
  obtain ⟨-, rfl⟩ := returns_exists? hask
  rw [if_neg (by simp [hdry])] at h
  obtain ⟨_, u, hstore, h⟩ := returns_bind h
  exact (returns_report h).tree ▸ (returns_store hpath hstore).2

end SchemaScaffold.Command
