/-!
Taking a computation apart. A chain of steps succeeds only if each of them does, and a guard only if
it lets the rest go on.
-/

namespace SchemaScaffold

section Outcome

variable {ε α β : Type}

theorem bind_ok {x : Except ε α} {k : α → Except ε β} {b : β} (h : x >>= k = .ok b) :
    ∃ a, x = .ok a ∧ k a = .ok b := by
  cases x with
  | error e => cases h
  | ok a => exact ⟨a, rfl, h⟩

theorem map_ok {x : Except ε α} {k : α → β} {b : β} (h : x.map k = .ok b) :
    ∃ a, x = .ok a ∧ k a = b := by
  cases x with
  | error e => cases h
  | ok a => exact ⟨a, rfl, Except.ok.inj h⟩

theorem mapError_ok {ε' : Type} {x : Except ε α} {k : ε → ε'} {a : α}
    (h : x.mapError k = .ok a) : x = .ok a := by
  cases x with
  | error e => cases h
  | ok a' => cases h; rfl

theorem ite_ok {c : Prop} [Decidable c] {x y : Except ε α} {a : α}
    (h : (if c then x else y) = .ok a) : (c ∧ x = .ok a) ∨ (¬ c ∧ y = .ok a) := by
  by_cases hc : c
  · exact .inl ⟨hc, by rwa [if_pos hc] at h⟩
  · exact .inr ⟨hc, by rwa [if_neg hc] at h⟩

/-- A guard that would fail, whatever comes after it, has been passed. -/
theorem guard_ok {c : Prop} [Decidable c] {e : ε} {k : α → Except ε β} {x : Except ε β} {b : β}
    (h : (if c then Except.error e >>= k else x) = .ok b) : ¬ c ∧ x = .ok b := by
  rcases ite_ok h with ⟨-, h⟩ | h
  · cases h
  · exact h

theorem mapM_ok {f : α → Except ε β} {as : List α} {bs : List β} (h : as.mapM f = .ok bs) :
    ∀ b ∈ bs, ∃ a ∈ as, f a = .ok b := by
  induction as generalizing bs with
  | nil =>
    cases h
    simp
  | cons a as ih =>
    rw [List.mapM_cons] at h
    obtain ⟨b, hb, h⟩ := bind_ok h
    obtain ⟨bs', hbs, h⟩ := bind_ok h
    cases h
    refine List.forall_mem_cons.mpr ⟨⟨a, by simp, hb⟩, fun b' hb' => ?_⟩
    obtain ⟨a', ha', hf⟩ := ih hbs b' hb'
    exact ⟨a', List.mem_cons_of_mem _ ha', hf⟩

theorem mapM_total {f : α → Except ε β} {g : α → β} (h : ∀ a, f a = .ok (g a)) (as : List α) :
    as.mapM f = .ok (as.map g) := by
  induction as with
  | nil => rfl
  | cons a as ih =>
    rw [List.mapM_cons, h a, ih]
    rfl

/-- A step after which the rest does as well, or as badly, whatever it returned. -/
theorem isOk_bind {x : Except ε α} {k : α → Except ε β} {b : Bool} (h : ∀ a, (k a).isOk = b) :
    (x >>= k).isOk = (x.isOk && b) := by
  cases x with
  | error e => rfl
  | ok a => exact h a

theorem isOk_bind_pure (x : Except ε α) (g : α → β) : (x >>= fun a => pure (g a)).isOk = x.isOk := by
  cases x <;> rfl

theorem isOk_mapM (f : α → Except ε β) (as : List α) :
    (as.mapM f).isOk = as.all fun a => (f a).isOk := by
  induction as with
  | nil => rfl
  | cons a as ih =>
    rw [List.mapM_cons, isOk_bind fun _ => isOk_bind_pure _ _, ih, List.all_cons]

end Outcome
end SchemaScaffold
