import SchemaScaffold.Session.Files

/-!
Runs of commands, taken apart step by step. Most of what commands are asked about is of one kind:
however the run ends, the session moved in a certain way, and a failure is one of certain failures.
Such a law holds of a command as soon as it holds of its steps.
-/

namespace SchemaScaffold

/-- The files and the commands started are the same; what was shown or answered may differ. -/
structure Session.SameFiles (s t : Session) : Prop where
  base : t.base = s.base
  tree : t.tree = s.tree
  directory : t.directory = s.directory
  started : t.started = s.started

theorem Session.SameFiles.rfl {s : Session} : s.SameFiles s := ⟨Eq.refl _, Eq.refl _, Eq.refl _, Eq.refl _⟩

theorem Session.SameFiles.symm {s t : Session} (h : s.SameFiles t) : t.SameFiles s :=
  ⟨h.base.symm, h.tree.symm, h.directory.symm, h.started.symm⟩

theorem Session.SameFiles.trans {s t u : Session} (h : s.SameFiles t) (k : t.SameFiles u) :
    s.SameFiles u :=
  ⟨k.base.trans h.base, k.tree.trans h.tree, k.directory.trans h.directory,
    k.started.trans h.started⟩

namespace Command

variable {α β : Type}

/-- What a run gives. -/
def value (x : Command α) (s : Session) : Except Failure α :=
  match x s with
  | .ok a _ => .ok a
  | .error e _ => .error e

/-- The session that a run leaves, however it ends. -/
def after (x : Command α) (s : Session) : Session :=
  match x s with
  | .ok _ t | .error _ t => t

theorem run_eq_ok {x : Command α} {a : α} {s : Session} (h : value x s = .ok a) :
    x s = .ok a (after x s) := by
  unfold value at h
  unfold after
  cases hx : x s <;> simp_all

theorem run_eq_error {x : Command α} {e : Failure} {s : Session} (h : value x s = .error e) :
    x s = .error e (after x s) := by
  unfold value at h
  unfold after
  cases hx : x s <;> simp_all

theorem value_eq_ok {x : Command α} {a : α} {s t : Session} (h : x s = .ok a t) : value x s = .ok a := by
  rw [value, h]

theorem after_eq {x : Command α} {a : α} {s t : Session} (h : x s = .ok a t) : after x s = t := by
  rw [after, h]

theorem after_eq_error {x : Command α} {e : Failure} {s t : Session} (h : x s = .error e t) :
    after x s = t := by
  rw [after, h]

theorem run_bind (x : Command α) (f : α → Command β) (s : Session) : (x >>= f) s =
    match x s with
    | .ok a t => f a t
    | .error e t => .error e t := by
  show EStateM.bind x f s = _
  unfold EStateM.bind
  cases x s <;> rfl

theorem bind_run {x : Command α} {f : α → Command β} {a : α} {s t : Session} (h : x s = .ok a t) :
    (x >>= f) s = f a t := by
  rw [run_bind, h]

theorem returns_bind {x : Command α} {f : α → Command β} {b : β} {s u : Session}
    (h : (x >>= f) s = .ok b u) : ∃ a t, x s = .ok a t ∧ f a t = .ok b u := by
  rw [run_bind] at h
  split at h
  · exact ⟨_, _, ‹_›, h⟩
  · cases h

theorem fails_bind {x : Command α} {f : α → Command β} {e : Failure} {s u : Session}
    (h : (x >>= f) s = .error e u) :
    x s = .error e u ∨ ∃ a t, x s = .ok a t ∧ f a t = .error e u := by
  rw [run_bind] at h
  split at h
  · exact .inr ⟨_, _, ‹_›, h⟩
  · rename_i hx
    cases h
    exact .inl hx

theorem returns_get {f : Session → Command β} {b : β} {s t : Session}
    (h : (get >>= f) s = .ok b t) : f s s = .ok b t := h

theorem returns_lift {ε : Type} {failure : ε → Failure} {x : Except ε α} {a : α} {s t : Session}
    (h : lift failure x s = .ok a t) : x = .ok a ∧ s = t := by
  cases x with
  | ok b => cases h; exact ⟨rfl, rfl⟩
  | error e => cases h

theorem run_workingDirectory {s : Session} {directory : Path} (h : s.directory = some directory) :
    workingDirectory s = .ok directory s := by
  rw [workingDirectory, bind_run (show (get : Command Session) s = .ok s s from rfl), h]
  rfl

theorem run_workingDirectory_gone {s : Session} (h : s.directory = none) :
    workingDirectory s = .error .directoryGone s := by
  rw [workingDirectory, bind_run (show (get : Command Session) s = .ok s s from rfl), h]
  rfl

/-! ## Laws of runs -/

/-- However a command ends, it moves the session as told, and fails only as told. -/
def Obeys (move : Session → Session → Prop) (may : Failure → Prop) (x : Command α) : Prop :=
  ∀ s, match x s with
    | .ok _ t => move s t
    | .error e t => move s t ∧ may e

theorem Obeys.returns {move : Session → Session → Prop} {may : Failure → Prop} {x : Command α}
    (h : Obeys move may x) {a : α} {s t : Session} (hrun : x s = .ok a t) : move s t := by
  have := h s
  rwa [hrun] at this

theorem Obeys.fails {move : Session → Session → Prop} {may : Failure → Prop} {x : Command α}
    (h : Obeys move may x) {e : Failure} {s t : Session} (hrun : x s = .error e t) :
    move s t ∧ may e := by
  have := h s
  rwa [hrun] at this

theorem Obeys.moves {move : Session → Session → Prop} {may : Failure → Prop} {x : Command α}
    (h : Obeys move may x) (s : Session) : move s (after x s) := by
  unfold after
  cases hx : x s with
  | ok a t => exact h.returns hx
  | error e t => exact (h.fails hx).1

/-- A way to move and to fail that lets a command show things and ask for files. -/
structure Law (move : Session → Session → Prop) (may : Failure → Prop) : Prop where
  quiet : ∀ {s t : Session}, s.SameFiles t → move s t
  trans : ∀ {s t u : Session}, move s t → move t u → move s u
  file : ∀ e, may (.file e)
  gone : may .directoryGone

variable {move : Session → Session → Prop} {may : Failure → Prop}

theorem Obeys.of_ok {x : Command α} {f : Session → α} {g : Session → Session}
    (hx : ∀ s, x s = .ok (f s) (g s)) (hg : ∀ s, move s (g s)) : Obeys move may x := by
  intro s
  rw [hx s]
  exact hg s

theorem Law.pure (law : Law move may) (a : α) : Obeys move may (pure a) :=
  .of_ok (fun _ => rfl) fun _ => law.quiet .rfl

theorem Law.throw (law : Law move may) {e : Failure} (he : may e) :
    Obeys move may (throw e : Command α) :=
  fun _ => ⟨law.quiet .rfl, he⟩

theorem Law.bind (law : Law move may) {x : Command α} {f : α → Command β} (hx : Obeys move may x)
    (hf : ∀ a, Obeys move may (f a)) : Obeys move may (x >>= f) := by
  intro s
  rw [run_bind]
  cases hrun : x s with
  | error e t => exact hx.fails hrun
  | ok a t =>
    dsimp only
    cases hrest : f a t with
    | ok b u => exact law.trans (hx.returns hrun) ((hf a).returns hrest)
    | error e u =>
      obtain ⟨hmove, hmay⟩ := (hf a).fails hrest
      exact ⟨law.trans (hx.returns hrun) hmove, hmay⟩

theorem Obeys.ite {c : Prop} [Decidable c] {x y : Command α} (hx : Obeys move may x)
    (hy : Obeys move may y) : Obeys move may (if c then x else y) := by
  split
  · exact hx
  · exact hy

theorem Law.get (law : Law move may) : Obeys move may (get : Command Session) :=
  .of_ok (fun _ => rfl) fun _ => law.quiet .rfl

theorem Law.lift (law : Law move may) {ε : Type} {failure : ε → Failure} (hf : ∀ e, may (failure e))
    (x : Except ε α) : Obeys move may (lift failure x) := by
  cases x with
  | ok a => exact law.pure a
  | error e => exact law.throw (hf e)

theorem Law.mapM (law : Law move may) {f : α → Command β} (hf : ∀ a, Obeys move may (f a))
    (as : List α) : Obeys move may (as.mapM f) := by
  induction as with
  | nil => exact law.pure []
  | cons a as ih =>
    rw [List.mapM_cons]
    exact law.bind (hf a) fun _ => law.bind ih fun _ => law.pure _

theorem Law.forM (law : Law move may) {f : α → Command PUnit} (hf : ∀ a, Obeys move may (f a))
    (as : List α) : Obeys move may (as.forM f) := by
  induction as with
  | nil => exact law.pure _
  | cons a as ih => exact law.bind (hf a) fun _ => ih

/-! ## The steps that only show or look -/

theorem Law.print (law : Law move may) (text : String) : Obeys move may (print text) :=
  .of_ok (fun _ => rfl) fun _ => law.quiet ⟨rfl, rfl, rfl, rfl⟩

theorem Law.say (law : Law move may) (markup : String) : Obeys move may (say markup) :=
  law.bind law.get fun _ => law.print _

theorem Law.workingDirectory (law : Law move may) : Obeys move may workingDirectory := by
  refine law.bind law.get fun s => ?_
  cases s.directory with
  | some directory => exact law.pure directory
  | none => exact law.throw law.gone

theorem Law.exists? (law : Law move may) (path : Path) : Obeys move may (exists? path) :=
  law.bind law.get fun _ => law.lift law.file _

theorem Law.readText (law : Law move may) (hmay : may .undecodable) (path : Path) :
    Obeys move may (readText path) := by
  refine law.bind law.get fun _ => law.bind (law.lift law.file _) fun content => ?_
  cases content with
  | some text => exact law.pure text
  | none => exact law.throw hmay

theorem Law.readText? (law : Law move may) (hmay : may .undecodable) (path : Path) :
    Obeys move may (readText? path) :=
  law.bind (law.exists? path) fun _ =>
    .ite (law.bind (law.readText hmay path) fun _ => law.pure _) (law.pure _)

theorem Law.report (law : Law move may) (status : Status) (path : Path) :
    Obeys move may (report status path) :=
  law.bind law.workingDirectory fun _ => law.say _

end Command
end SchemaScaffold
