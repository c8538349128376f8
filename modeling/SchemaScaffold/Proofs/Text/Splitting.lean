import Mathlib.Data.List.DropRight
import Mathlib.Data.List.TakeWhile
import SchemaScaffold.Proofs.Naming.Spellings

/-!
Cutting and joining. Pieces that do not hold the separator are what their joined text is cut into,
and the pieces of a text join to that text again; so a text and its pieces tell the same.
-/

namespace SchemaScaffold.Text

/-- Joined pieces are cut where they were joined. -/
theorem split_intercalate {c : Char} {pieces : List (List Char)} (hne : pieces ≠ [])
    (h : ∀ piece ∈ pieces, c ∉ piece) : split (· == c) ([c].intercalate pieces) = pieces := by
  have hone : ∀ piece ∈ pieces, split (· == c) piece = [piece] := by
    intro piece hpiece
    refine split_of_none fun d hd => beq_false_of_ne ?_
    rintro rfl
    exact h piece hpiece hd
  induction pieces with
  | nil => exact absurd rfl hne
  | cons piece pieces ih =>
    cases pieces with
    | nil => simpa using hone piece (by simp)
    | cons next pieces =>
      rw [List.intercalate_cons_cons, List.append_assoc, List.singleton_append,
        split_append _ (by simp), hone piece (by simp),
        ih (by simp) (fun p hp => h p (List.mem_cons_of_mem _ hp)) fun p hp =>
          hone p (List.mem_cons_of_mem _ hp)]
      rfl

theorem intercalate_split (c : Char) (cs : List Char) :
    [c].intercalate (split (· == c) cs) = cs := by
  fun_induction split (· == c) cs with
  | case1 => rfl
  | case2 d cs h ih =>
    obtain ⟨first, others, he⟩ := List.exists_cons_of_ne_nil (split_ne_nil (· == c) cs)
    rw [he] at ih ⊢
    rw [List.intercalate_cons_cons, ih, show d = c by simpa using h]
    rfl
  | case3 d cs h hnil _ => exact absurd hnil (split_ne_nil _ cs)
  | case4 d cs h first others he ih =>
    rw [he] at ih
    cases others with
    | nil => simpa using ih
    | cons next others =>
      rw [List.intercalate_cons_cons] at ih ⊢
      rw [← ih]
      rfl

/-- A piece has characters of the text, and not the separator. -/
theorem mem_of_mem_split {c d : Char} {cs piece : List Char} (h : piece ∈ split (· == c) cs)
    (hd : d ∈ piece) : d ∈ cs ∧ d ≠ c := by
  have hmem : d ∈ (split (· == c) cs).flatten := List.mem_flatten.mpr ⟨piece, h, hd⟩
  rw [split_flatten] at hmem
  simpa using List.mem_filter.mp hmem

/-- The pieces of a text are those that make it up without holding the separator. -/
theorem splitAt_eq_iff {c : Char} {s : String} {pieces : List String} : splitAt c s = pieces ↔
    pieces ≠ [] ∧ (∀ piece ∈ pieces, c ∉ piece.toList) ∧
      [c].intercalate (pieces.map String.toList) = s.toList := by
  have hback : ∀ ps : List (List Char), (ps.map String.ofList).map String.toList = ps := by simp
  constructor
  · rintro rfl
    refine ⟨by simpa [splitAt] using split_ne_nil _ _, ?_, ?_⟩
    · intro piece hpiece
      obtain ⟨cs, hcs, rfl⟩ := List.mem_map.mp hpiece
      intro hc
      exact (mem_of_mem_split hcs (by simpa using hc)).2 rfl
    · rw [splitAt, hback, intercalate_split]
  · rintro ⟨hne, hnone, hjoin⟩
    rw [splitAt, ← hjoin, split_intercalate (by simpa using hne)]
    · simp
    · intro cs hcs
      obtain ⟨piece, hpiece, rfl⟩ := List.mem_map.mp hcs
      exact hnone piece hpiece

/-- Joining the pieces of a text gives the text back. -/
theorem intercalate_splitAt {separator : String} {c : Char} (h : separator.toList = [c]) (s : String) :
    separator.intercalate (splitAt c s) = s := by
  obtain ⟨-, -, hjoin⟩ := splitAt_eq_iff.mp (Eq.refl (splitAt c s))
  rw [← String.toList_inj, String.toList_intercalate, h, hjoin]

/-! ## Blank ends of a text -/

theorem trim_eq_nil {cs : List Char} : trim cs = [] ↔ ∀ c ∈ cs, isBlank c = true := by
  rw [trim, trimEnd, List.reverse_eq_nil_iff, List.dropWhile_eq_nil_iff]
  constructor
  · intro h
    rw [← List.dropWhile_eq_nil_iff]
    by_contra hne
    have hhead := List.head_dropWhile_not isBlank hne
    rw [h _ (List.mem_reverse.mpr (List.head_mem hne))] at hhead
    cases hhead
  · intro h c hc
    exact h c ((List.dropWhile_sublist isBlank).mem (List.mem_reverse.mp hc))

theorem mem_of_mem_trim {cs : List Char} {c : Char} (h : c ∈ trim cs) : c ∈ cs := by
  have hend : trim cs <+: cs.dropWhile isBlank := List.rdropWhile_prefix isBlank _
  exact (List.dropWhile_sublist isBlank).mem (hend.mem h)

/-- What is trimmed has no blanks at its ends. -/
theorem trim_trim (cs : List Char) : trim (trim cs) = trim cs := by
  have hend : trim cs <+: cs.dropWhile isBlank := List.rdropWhile_prefix isBlank _
  have hstart : (trim cs).dropWhile isBlank = trim cs := by
    rw [List.dropWhile_eq_self_iff]
    intro hpos
    rw [hend.getElem hpos]
    exact List.dropWhile_get_zero_not isBlank cs (Nat.lt_of_lt_of_le hpos hend.length_le)
  have htrim : trim (trim cs) = (trim cs).rdropWhile isBlank := by
    rw [trim, trimStart, hstart]
    rfl
  exact htrim.trans (List.rdropWhile_idempotent isBlank _)

end SchemaScaffold.Text
