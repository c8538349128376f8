import SchemaScaffold.Proofs.Project.Reach
import SchemaScaffold.Proofs.Session.Growth

/-!
What storing a file changes, whichever way its path goes and however it ends. A store that fails may
have made directories on the way, and has changed nothing else.
-/

namespace SchemaScaffold.Command

open SchemaScaffold.Tree SchemaScaffold.Path

variable {s t : Session}

/-- The law of a command that makes directories along a path. -/
theorem paving (path : Path) : Law (fun s t => Paved s.tree t.tree path) fun _ => True where
  quiet h := h.tree ▸ .refl _ _
  trans := .trans
  file _ := trivial
  gone := trivial

theorem run_change (edit : Tree → Except FileError Tree) (s : Session) : change edit s =
    match edit s.tree with
    | .ok tree => .ok () { s with tree }
    | .error e => .error (.file e) s := by
  rw [change, bind_run (show (get : Command Session) s = .ok s s from rfl)]
  cases edit s.tree <;> rfl

theorem fails_change {edit : Tree → Except FileError Tree} {e : Failure}
    (h : change edit s = .error e t) : s = t := by
  rw [run_change] at h
  split at h <;> cases h
  rfl

theorem paved_change {path whole : Path} (hpre : path <+: whole) :
    Obeys (fun (s t : Session) => Paved s.tree t.tree whole) (fun _ => True)
      (change (·.makeDirectory path)) := by
  intro s
  cases hrun : change (·.makeDirectory path) s with
  | ok a t =>
    obtain ⟨tree, hmake, rfl⟩ := returns_change hrun
    exact (paved_makeDirectory hmake).weaken hpre
  | error e t =>
    rw [fails_change hrun]
    exact ⟨.refl _ _, trivial⟩

theorem paved_makeDirectoriesUpTo (count : Nat) {path whole : Path} (hpre : path <+: whole) :
    Obeys (fun (s t : Session) => Paved s.tree t.tree whole) (fun _ => True)
      (makeDirectoriesUpTo count path) := by
  have law := paving whole
  induction count generalizing path with
  | zero => exact paved_change hpre
  | succ count ih =>
    rw [makeDirectoriesUpTo_succ]
    refine law.bind law.get fun _ => law.bind (.ite (ih ?_) (law.pure _)) fun _ => paved_change hpre
    exact (List.dropLast_prefix path).trans hpre

theorem stored_store {path : Path} {content : String} (h : store path content s = .ok () t) :
    Stored s.tree t.tree path content := by
  obtain ⟨_, u, hmake, hchange⟩ := returns_bind h
  obtain ⟨tree, hwrite, rfl⟩ := returns_change hchange
  have hpaved : Paved s.tree u.tree path.dropLast :=
    (paved_makeDirectoriesUpTo _ (List.prefix_refl _)).returns hmake
  exact hpaved.stored (stored_write hwrite)

theorem paved_store {path : Path} {content : String} {e : Failure}
    (h : store path content s = .error e t) : Paved s.tree t.tree path.dropLast := by
  rcases fails_bind h with hmake | ⟨_, u, hmake, hchange⟩
  · exact ((paved_makeDirectoriesUpTo _ (List.prefix_refl _)).fails hmake).1
  · have hpaved : Paved s.tree u.tree path.dropLast :=
      (paved_makeDirectoriesUpTo _ (List.prefix_refl _)).returns hmake
    exact fails_change hchange ▸ hpaved

/-- A text was stored, and nothing else happened to the files. -/
def Stores (path : Path) (content : String) (s t : Session) : Prop :=
  ∃ before after, s.SameFiles before ∧ store path content before = .ok () after ∧ after.SameFiles t

theorem Stores.stored {path : Path} {content : String} (h : Stores path content s t) :
    Stored s.tree t.tree path content := by
  obtain ⟨before, after, hbefore, hstore, hafter⟩ := h
  have hstored := stored_store hstore
  rwa [hbefore.tree, ← hafter.tree] at hstored

theorem Stores.behind {u : Session} {path : Path} {content : String} (h : s.SameFiles t)
    (k : Stores path content t u) : Stores path content s u := by
  obtain ⟨before, after, hbefore, hstore, hafter⟩ := k
  exact ⟨before, after, h.trans hbefore, hstore, hafter⟩

theorem Stores.found {path : Path} {content : String} (h : Stores path content s t) :
    ∃ place node, t.tree.locate path = .found place node := by
  obtain ⟨before, after, -, hstore, hafter⟩ := h
  obtain ⟨place, text, hlocate, -⟩ := read_some_iff.mp (grew_store hstore).2
  exact ⟨place, _, hafter.tree ▸ hlocate⟩

/-! ## Storing over a file -/

/-- A directory that is there is not made again. -/
theorem run_makeDirectories {path place : Path} (h : s.tree.locate path = .found place .directory) :
    makeDirectories path s = .ok () s := by
  have hmake : change (·.makeDirectory path) s = .ok () s := by
    rw [run_change, Tree.makeDirectory, h]
  rw [makeDirectories]
  cases path.length with
  | zero => exact hmake
  | succ count =>
    rw [makeDirectoriesUpTo_succ, bind_run (show (get : Command Session) s = .ok s s from rfl), h]
    exact hmake

theorem run_store {path place : Path} {old : Content} (h : s.tree.locate path = .found place (.file old))
    (content : String) : store path content s =
      .ok () { s with tree := s.tree.insert place (.file (.text content)) } := by
  have hne : path ≠ [] := by
    rintro rfl
    cases h
  obtain ⟨above, habove⟩ : ∃ place, s.tree.locate path.dropLast = .found place .directory := by
    refine probe_front (b := [path.getLast hne]) (by simp) ?_
    rw [List.dropLast_concat_getLast]
    exact probe_true.mpr ⟨place, _, h⟩
  rw [store, bind_run (run_makeDirectories habove), run_change, Tree.write, h]

end SchemaScaffold.Command
