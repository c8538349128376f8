import Mathlib.Data.List.Induction
import SchemaScaffold.Project.Path

/-!
Straight paths: those that never go down and up again. Steps up stand at their front only, so every
directory on the way is the path cut short there, and two such paths lead to one place only if they
are the same.
-/

namespace SchemaScaffold.Path

/-- A path that no later `..` takes a step back in. -/
def Straight (p : Path) : Prop := normalize p = p

instance (p : Path) : Decidable (Straight p) := inferInstanceAs (Decidable (normalize p = p))

theorem normalize_concat (p : Path) (part : String) : normalize (p ++ [part]) =
    if part == up then parent (normalize p) else normalize p ++ [part] := by
  simp [normalize, List.foldl_append]

theorem normalize_append {q : Path} (h : up ∉ q) (p : Path) :
    normalize (p ++ q) = normalize p ++ q := by
  induction q generalizing p with
  | nil => simp
  | cons part q ih =>
    obtain ⟨hpart, hq⟩ := List.ne_and_not_mem_of_not_mem_cons h
    rw [List.append_cons, ih hq, normalize_concat]
    simp [Ne.symm hpart]

theorem Straight.append {p q : Path} (hp : Straight p) (hq : up ∉ q) : Straight (p ++ q) := by
  rw [Straight, normalize_append hq, hp]

theorem length_parent_le (p : Path) : (parent p).length ≤ p.length + 1 := by
  unfold parent
  split
  · simp only [List.length_dropLast]
    omega
  · simp

theorem length_normalize_le (p : Path) : (normalize p).length ≤ p.length := by
  induction p using List.reverseRecOn with
  | nil => simp [normalize]
  | append_singleton p part ih =>
    rw [normalize_concat, List.length_append]
    have := length_parent_le (normalize p)
    split <;> simp <;> omega

/-- The step before the last of a straight path is straight, and a step up follows only steps up. -/
theorem straight_concat {p : Path} {part : String} (h : Straight (p ++ [part])) :
    Straight p ∧ (part = up → parent p = p ++ [up]) := by
  have hlen := length_normalize_le p
  rw [Straight, normalize_concat] at h
  split at h
  · rename_i hup
    rw [show part = up by simpa using hup] at h ⊢
    have hgrown : parent (normalize p) = normalize p ++ [up] := by
      have hl := congrArg List.length h
      unfold parent at hl ⊢
      split
      · rename_i hlast
        rw [if_pos hlast] at hl
        simp at hl
        omega
      · rfl
    have hp : normalize p = p := (List.append_inj' (hgrown.symm.trans h) rfl).1
    exact ⟨hp, fun _ => hp ▸ hgrown⟩
  · rename_i hup
    exact ⟨(List.append_inj' h rfl).1, fun he => absurd he (by simpa using hup)⟩

theorem Straight.left {p : Path} (q : Path) (h : Straight (p ++ q)) : Straight p := by
  induction q using List.reverseRecOn with
  | nil => simpa using h
  | append_singleton q part ih =>
    rw [← List.append_assoc] at h
    exact ih (straight_concat h).1

theorem Straight.dropLast {p : Path} (h : Straight p) : Straight p.dropLast := by
  cases hlast : p.getLast? with
  | none =>
    rw [List.getLast?_eq_none_iff.mp hlast]
    rfl
  | some part =>
    obtain ⟨q, rfl⟩ := List.getLast?_eq_some_iff.mp hlast
    simpa using (straight_concat h).1

/-- A straight path that ends with a step up has no other steps. -/
theorem Straight.all_up {p : Path} (h : Straight (p ++ [up])) : ∀ part ∈ p, part = up := by
  induction p using List.reverseRecOn with
  | nil => simp
  | append_singleton p part ih =>
    obtain ⟨hp, hup⟩ := straight_concat h
    have hlast := hup rfl
    have hpart : part = up := by
      unfold parent at hlast
      split at hlast
      · have := congrArg List.length hlast
        simp at this
      · rename_i hnot
        simpa using hnot
    rw [hpart] at hp ⊢
    exact List.forall_mem_append.mpr ⟨ih hp, by simp⟩

/-- The parts of a written path have no slash, and are neither empty nor a dot. -/
theorem parse_name {s : String} (hslash : '/' ∉ s.toList) (hne : s ≠ "") (hdot : s ≠ ".") :
    parse s = [s] := by
  have hsplit : ∀ cs : List Char, '/' ∉ cs → Text.split (· == '/') cs = [cs] := by
    intro cs hcs
    induction cs with
    | nil => rfl
    | cons c cs ih =>
      obtain ⟨hc, hrest⟩ := List.ne_and_not_mem_of_not_mem_cons hcs
      simp [Text.split, Ne.symm hc, ih hrest]
  simp [parse, Text.splitAt, hsplit _ hslash, hne, hdot]

end SchemaScaffold.Path
