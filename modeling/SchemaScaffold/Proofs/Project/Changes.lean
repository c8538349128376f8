import SchemaScaffold.Proofs.Project.Trees

/-!
What operations change in a tree, said by places. Making directories fills free places on the way to
a path; writing a file changes the place of the file besides; removing a directory empties the places
below it. Changes of several files add up as long as the files are different ones.
-/

namespace SchemaScaffold.Tree

open SchemaScaffold.Path

variable {t u v : Tree}

/-- The later tree has more directories, all of them on the way to a path. -/
structure Opened (t u : Tree) (p : Path) : Prop where
  kept : ∀ q, u.get? q = t.get? q ∨
    (t.get? q = none ∧ u.get? q = some .directory ∧ q <+: p)
  closed : t.Closed → u.Closed

theorem Opened.rfl {p : Path} : Opened t t p := ⟨fun _ => .inl (Eq.refl _), id⟩

theorem Opened.trans {p : Path} (h : Opened t u p) (k : Opened u v p) : Opened t v p := by
  refine ⟨fun q => ?_, k.closed ∘ h.closed⟩
  rcases h.kept q with hq | ⟨hnone, hdir, hpre⟩ <;> rcases k.kept q with kq | ⟨knone, kdir, kpre⟩
  · exact .inl (kq.trans hq)
  · exact .inr ⟨hq ▸ knone, kdir, kpre⟩
  · exact .inr ⟨hnone, kq ▸ hdir, hpre⟩
  · rw [hdir] at knone
    cases knone

theorem Opened.weaken {p q : Path} (h : Opened t u p) (hpre : p <+: q) : Opened t u q :=
  ⟨fun r => (h.kept r).imp id fun ⟨hnone, hdir, hr⟩ => ⟨hnone, hdir, hr.trans hpre⟩, h.closed⟩

/-- Texts were written, the missing directories above them were made, and all else is as it was. -/
structure Wrote (t u : Tree) (files : List (Path × String)) : Prop where
  named : ∀ f ∈ files, f.1.any hasNull = false
  there : ∀ f ∈ files, u.get? f.1 = some (.file (.text f.2))
  target : ∀ f ∈ files, t.get? f.1 ≠ some .directory
  kept : ∀ q, q ∉ files.map (·.1) → u.get? q = t.get? q ∨
    (t.get? q = none ∧ u.get? q = some .directory ∧ ∃ f ∈ files, q <+: f.1)
  closed : t.Closed → u.Closed

theorem Wrote.rfl : Wrote t t [] := ⟨by simp, by simp, by simp, fun _ _ => .inl (Eq.refl _), id⟩

theorem Wrote.keeps_directory {files : List (Path × String)} (h : Wrote t u files) {q : Path}
    (hq : t.get? q = some .directory) : u.get? q = some .directory := by
  have hnot : q ∉ files.map (·.1) := by
    intro hmem
    obtain ⟨f, hf, rfl⟩ := List.mem_map.mp hmem
    exact h.target f hf hq
  rcases h.kept q hnot with he | ⟨hnone, -⟩
  · rw [he, hq]
  · rw [hq] at hnone
    cases hnone

/-- What was written stays while other files are written. -/
theorem Wrote.append {a b : List (Path × String)} (h : Wrote t u a) (k : Wrote u v b)
    (hother : ∀ f ∈ a, f.1 ∉ b.map (·.1)) : Wrote t v (a ++ b) := by
  refine ⟨fun f hf => ?_, fun f hf => ?_, fun f hf => ?_, fun q hq => ?_, k.closed ∘ h.closed⟩
  · exact (List.mem_append.mp hf).elim (h.named f) (k.named f)
  · rcases List.mem_append.mp hf with hf | hf
    · rcases k.kept f.1 (hother f hf) with he | ⟨hnone, -⟩
      · rw [he, h.there f hf]
      · rw [h.there f hf] at hnone
        cases hnone
    · exact k.there f hf
  · rcases List.mem_append.mp hf with hf | hf
    · exact h.target f hf
    · exact fun hdir => k.target f hf (h.keeps_directory hdir)
  · rw [List.map_append, List.mem_append, not_or] at hq
    have hmem : ∀ f ∈ a, f ∈ a ++ b := fun f => List.mem_append_left b
    have kmem : ∀ f ∈ b, f ∈ a ++ b := fun f => List.mem_append_right a
    rcases h.kept q hq.1 with he | ⟨hnone, hdir, f, hf, hpre⟩ <;>
      rcases k.kept q hq.2 with ke | ⟨knone, kdir, g, hg, kpre⟩
    · exact .inl (ke.trans he)
    · exact .inr ⟨he ▸ knone, kdir, g, kmem g hg, kpre⟩
    · exact .inr ⟨hnone, ke ▸ hdir, f, hmem f hf, hpre⟩
    · rw [hdir] at knone
      cases knone

/-- A place that is neither written nor above what is written is as it was. -/
theorem Wrote.same {files : List (Path × String)} (h : Wrote t u files) {q : Path}
    (hq : ∀ f ∈ files, ¬ q <+: f.1) : u.get? q = t.get? q := by
  have hnot : q ∉ files.map (·.1) := by
    intro hmem
    obtain ⟨f, hf, rfl⟩ := List.mem_map.mp hmem
    exact hq f hf (List.prefix_refl _)
  rcases h.kept q hnot with he | ⟨-, -, f, hf, hpre⟩
  · exact he
  · exact absurd hpre (hq f hf)

theorem Opened.wrote {p : Path} {s : String} (h : Opened t u p) (k : Wrote u v [(p, s)]) :
    Wrote t v [(p, s)] := by
  refine ⟨k.named, k.there, fun f hf hdir => ?_, fun q hq => ?_, k.closed ∘ h.closed⟩
  · rcases h.kept f.1 with he | ⟨hnone, -⟩
    · exact k.target f hf (he ▸ hdir)
    · rw [hdir] at hnone
      cases hnone
  · rcases h.kept q with he | ⟨hnone, hdir, hpre⟩ <;> rcases k.kept q hq with ke | ⟨knone, kdir, kpre⟩
    · exact .inl (ke.trans he)
    · exact .inr ⟨he ▸ knone, kdir, kpre⟩
    · exact .inr ⟨hnone, ke ▸ hdir, (p, s), by simp, hpre⟩
    · rw [hdir] at knone
      cases knone

/-! ## The operations -/

theorem makeDirectory_ok {p : Path} (hp : Straight p) (h : t.makeDirectory p = .ok u) :
    Opened t u p := by
  unfold makeDirectory at h
  split at h
  · cases h
    exact Opened.rfl
  · cases h
  · rename_i place he
    obtain ⟨rfl, hnone, hin, -⟩ := locate_free hp he
    cases h
    have hplace : t.get? place ≠ some .directory := by simp [hnone]
    have habove : isAbove place = false := isAbove_eq_false hplace
    refine ⟨fun q => ?_, fun ht => ht.insert habove hin (.inl rfl)⟩
    rw [get?_insert habove]
    split
    · rename_i hq
      exact .inr ⟨hq ▸ hnone, rfl, hq ▸ List.prefix_refl _⟩
    · exact .inl rfl
  · cases h

theorem wrote_insert {p : Path} {s : String} (hnull : p.any hasNull = false) (hover : t.get? p ≠ some .directory)
    (hin : t.Closed → t.get? p.dropLast = some .directory) :
    Wrote t (t.insert p (.file (.text s))) [(p, s)] := by
  have habove : isAbove p = false := isAbove_eq_false hover
  refine ⟨by simpa using hnull, by simp [get?_insert habove], by simpa using hover, fun q hq => .inl ?_,
    fun ht => ht.insert habove (hin ht) (.inr hover)⟩
  rw [get?_insert habove, if_neg (by simpa using hq)]

theorem write_ok {p : Path} {s : String} (hp : Straight p) (h : t.write p s = .ok u) :
    Wrote t u [(p, s)] := by
  unfold write at h
  split at h
  · rename_i place content he
    obtain ⟨rfl, hnode, hnull⟩ := locate_found hp he
    cases h
    refine wrote_insert hnull (by simp [hnode]) fun ht => ?_
    have hplace : t.get? place ≠ some .directory := by simp [hnode]
    exact ht _ (mem_of_get? (isAbove_eq_false hplace) hnode)
  · rename_i place he
    obtain ⟨rfl, hnone, hin, hnull⟩ := locate_free hp he
    cases h
    exact wrote_insert hnull (by simp [hnone]) fun _ => hin
  · cases h
  · cases h

/-- Only a directory is removed, with all that is below it. -/
theorem removeDirectory_ok {p : Path} (hp : Straight p) (h : t.removeDirectory p = .ok u) :
    t.get? p = some .directory ∧ u = t.erase p := by
  unfold removeDirectory at h
  split at h
  · rename_i place he
    obtain ⟨rfl, hnode, -⟩ := locate_found hp he
    cases h
    exact ⟨hnode, rfl⟩
  all_goals cases h

end SchemaScaffold.Tree
