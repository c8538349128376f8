import SchemaScaffold.Proofs.Command.Refusals

/-!
What commands read. Before a command writes it asks only for files, so what it learns, or how it
fails, hangs on the files alone and not on the console.
-/

namespace SchemaScaffold

open Naming Generated Generate

namespace Command

variable {α β : Type}

/-- A command whose value hangs on the files only, and that leaves them alone. -/
structure Reads (x : Command α) : Prop where
  looks : Obeys Session.SameFiles (fun _ => True) x
  same : ∀ s t, s.SameFiles t → value x t = value x s

theorem Reads.pure (a : α) : Reads (pure a) := ⟨looking.pure a, fun _ _ _ => rfl⟩

theorem Reads.lift {ε : Type} (failure : ε → Failure) (x : Except ε α) : Reads (lift failure x) :=
  ⟨looking.lift (fun _ => trivial) x, fun _ _ _ => by cases x <;> rfl⟩

theorem Reads.bind {x : Command α} {f : α → Command β} (hx : Reads x) (hf : ∀ a, Reads (f a)) :
    Reads (x >>= f) := by
  refine ⟨looking.bind hx.looks fun a => (hf a).looks, fun s t h => ?_⟩
  have hvalue := hx.same s t h
  have hafter := (hx.looks.moves s).symm.trans (h.trans (hx.looks.moves t))
  cases ht : value x t with
  | ok a =>
    have hs := run_eq_ok (hvalue ▸ ht)
    rw [value, bind_run (run_eq_ok ht), value, bind_run hs]
    exact (hf a).same _ _ hafter
  | error e =>
    have hs := run_eq_error (hvalue ▸ ht)
    rw [value, run_bind, run_eq_error ht, value, run_bind, hs]

/-- A question about the files. -/
theorem Reads.ask {f : Session → Command α} (hf : ∀ s, Reads (f s))
    (hsame : ∀ s t : Session, s.SameFiles t → f t = f s) : Reads (get >>= f) := by
  refine ⟨looking.bind looking.get fun s => (hf s).looks, fun s t h => ?_⟩
  show value (f t) t = value (f s) s
  rw [hsame s t h]
  exact (hf s).same s t h

theorem Reads.exists? (path : Path) : Reads (exists? path) :=
  .ask (fun _ => .lift _ _) fun _ _ h => by rw [h.tree]

theorem Reads.readText (path : Path) : Reads (readText path) := by
  refine .ask (fun s => .bind (.lift _ _) fun content => ?_) fun _ _ h => by rw [h.tree]
  cases content with
  | some text => exact .pure text
  | none => exact ⟨looking.throw trivial, fun _ _ _ => rfl⟩

theorem Reads.readText? (path : Path) : Reads (readText? path) := by
  refine .bind (.exists? path) fun there => ?_
  split
  · exact .bind (.readText path) fun _ => .pure _
  · exact .pure _

theorem Reads.tableTraits (project : Project) (options : Options) (names : ModelNames) :
    Reads (tableTraits project options names) := by
  refine .bind (.readText? _) fun source => ?_
  cases source with
  | none => exact .pure _
  | some source =>
    refine .bind (.lift _ _) fun block => ?_
    cases block with
    | some block => exact .pure _
    | none => exact .pure _

theorem Reads.mergeTable (project : Project) (options : Options) (names : ModelNames)
    (fields : List Field) : Reads (Generation.mergeTable project options names fields) :=
  .bind (.lift _ _) fun _ => .bind (.readText? _) fun _ => .lift _ _

end Command

namespace Generation

open Command

theorem reads_read (project : Project) (options : Options) (names : ModelNames)
    (fields : List Field) (g : Generation) : Reads (g.read project options names fields) := by
  unfold Generation.read
  split
  · exact .bind (.mergeTable _ _ _ _) fun _ => .pure _
  · refine .bind ?_ fun _ => .pure _
    cases g <;> first | exact .pure _ | exact .tableTraits _ _ _

end Generation
end SchemaScaffold
