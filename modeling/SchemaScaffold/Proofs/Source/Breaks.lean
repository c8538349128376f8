import SchemaScaffold.Proofs.Text.Literals
import SchemaScaffold.Source.Declaration

/-!
Runs of line breaks. Where a declaration is taken out, the blank lines around it meet, and a longer
run is squeezed to one blank line. Paragraphs keep their text, so a text of paragraphs with a blank
line before each stays as it is, and a gap before one closes.
-/

namespace SchemaScaffold.Source

open Text

/-- Lines without a blank one among them. -/
structure Paragraph (p : List Char) : Prop where
  unpaired : Unpaired '\n' '\n' p
  ends : ['\n'] <:+ p

/-- One line that is not blank. -/
theorem paragraph_line {line : List Char} (h : '\n' ∉ line) (hne : line ≠ []) :
    Paragraph (line ++ ['\n']) := by
  refine ⟨⟨fun hin => ?_, ?_⟩, List.suffix_append _ _⟩
  · rcases List.infix_append_iff_ne_nil.mp hin with hin | hin | ⟨front, back, hfront, -, he, hsuffix, -⟩
    · exact h (hin.subset (by simp))
    · have := hin.length_le
      simp at this
    · obtain ⟨c, front, rfl⟩ := List.exists_cons_of_ne_nil hfront
      obtain rfl : '\n' = c := (List.cons.inj he).1
      exact h (hsuffix.subset List.mem_cons_self)
  · obtain ⟨c, line, rfl⟩ := List.exists_cons_of_ne_nil hne
    rintro ⟨⟩
    exact h (by simp)

theorem Paragraph.append {p q : List Char} (hp : Paragraph p) (hq : Paragraph q) :
    Paragraph (p ++ q) :=
  ⟨hp.unpaired.append hq.unpaired, hq.ends.trans (List.suffix_append p q)⟩

theorem paragraph_flatMap {α : Type} {f : α → List Char} {as : List α} (hne : as ≠ [])
    (h : ∀ a ∈ as, Paragraph (f a)) : Paragraph (as.flatMap f) := by
  induction as with
  | nil => exact absurd rfl hne
  | cons a as ih =>
    rw [List.flatMap_cons]
    by_cases hnil : as = []
    · simpa [hnil] using h a (by simp)
    · exact (h a (by simp)).append (ih hnil fun b hb => h b (List.mem_cons_of_mem _ hb))

theorem Paragraph.ne_nil {p : List Char} (h : Paragraph p) : p ≠ [] := by
  rintro rfl
  simpa using h.ends

/-- A text without blank lines keeps its breaks, and the count goes on from its last character. -/
theorem squeezeBreaks_append {s : List Char} (h : ¬ ['\n', '\n'] <:+: s) (b : List Char) :
    squeezeBreaks 0 (s ++ b) =
      s ++ squeezeBreaks (if s.getLast? = some '\n' then 1 else 0) b := by
  induction s with
  | nil => rfl
  | cons c s ih =>
    have htail := ih fun hin => h (List.infix_cons hin)
    by_cases hc : c = '\n'
    · subst hc
      cases s with
      | nil => rfl
      | cons d s =>
        have hd : d ≠ '\n' := by
          rintro rfl
          exact h ⟨[], s, rfl⟩
        have hsame : squeezeBreaks 1 (d :: s ++ b) = squeezeBreaks 0 (d :: s ++ b) := by
          simp [squeezeBreaks, hd]
        rw [List.cons_append, squeezeBreaks, if_pos (by decide), if_pos (by decide), hsame,
          htail, List.getLast?_cons_cons, List.cons_append, List.cons_append, List.cons_append]
    · rw [List.cons_append, squeezeBreaks, if_neg (by simpa using hc), htail, List.cons_append]
      cases s with
      | nil => simp [hc]
      | cons d s => rw [List.getLast?_cons_cons]

/-- A paragraph stays as it is, whatever breaks stand before it; it ends with one. -/
theorem Paragraph.squeezeBreaks {p : List Char} (h : Paragraph p) (kept : Nat) (b : List Char) :
    Source.squeezeBreaks kept (p ++ b) = p ++ Source.squeezeBreaks 1 b := by
  have hlast : p.getLast? = some '\n' := by
    obtain ⟨front, rfl⟩ := h.ends
    simp
  have hzero := squeezeBreaks_append h.unpaired.1 b
  rw [if_pos hlast] at hzero
  obtain ⟨c, p, rfl⟩ := List.exists_cons_of_ne_nil h.ne_nil
  have hc : c ≠ '\n' := fun he => h.unpaired.2 (by simp [he])
  rw [← hzero, List.cons_append, Source.squeezeBreaks, Source.squeezeBreaks]
  simp [hc]

/-- Any number of breaks after a line, and the paragraph behind them: one blank line is left. -/
theorem Paragraph.squeezeBreaks_gap {p : List Char} (h : Paragraph p) (gap : Nat) (b : List Char) :
    Source.squeezeBreaks 1 (List.replicate (gap + 1) '\n' ++ (p ++ b)) =
      '\n' :: p ++ Source.squeezeBreaks 1 b := by
  have hmore : ∀ n, Source.squeezeBreaks 2 (List.replicate n '\n' ++ (p ++ b)) =
      p ++ Source.squeezeBreaks 1 b := by
    intro n
    induction n with
    | zero => exact h.squeezeBreaks 2 b
    | succ n ih =>
      rw [List.replicate_succ, List.cons_append, Source.squeezeBreaks]
      exact ih
  rw [List.replicate_succ, List.cons_append, Source.squeezeBreaks]
  simp [hmore gap]

/-- At the end of a text, too, one blank line is left. -/
theorem squeezeBreaks_end (gap : Nat) :
    squeezeBreaks 1 (List.replicate (gap + 1) '\n') = ['\n'] := by
  have hmore : ∀ n, squeezeBreaks 2 (List.replicate n '\n') = [] := by
    intro n
    induction n with
    | zero => rfl
    | succ n ih =>
      rw [List.replicate_succ, squeezeBreaks]
      exact ih
  rw [List.replicate_succ, squeezeBreaks]
  simp [hmore gap]

end SchemaScaffold.Source
