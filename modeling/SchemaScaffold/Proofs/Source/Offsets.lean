import SchemaScaffold.Proofs.Source.Located

/-!
Offsets of the masked text in the text itself. Masking puts spaces in the place of other characters and
does nothing else, so whatever is found in the masked text stands at the same offset of the text, and a
line starts in the one where it starts in the other. A span that is cut out of the text by offsets of
the masked one is therefore a declaration of the text: it starts a line, its parenthesis is a parenthesis
of the text, and its end is that of the block from there.
-/

namespace SchemaScaffold.Source

open Text

theorem mask_break_iff (source : List Char) (i : Nat) :
    (mask source)[i]? = some '\n' ↔ source[i]? = some '\n' := by
  have hbreaks := congrArg (fun breaks => breaks[i]? = some true) (mask_breaks source)
  simpa using hbreaks

section Located

variable {read : List Char → Option (List Char)} {shown text front lead body terminator back : List Char}

/-- The parenthesis of a declaration stands in the text that is searched, and in the text itself. -/
theorem Located.opening (h : Located read shown text front lead body terminator back)
    (hread : DeclarationReader read) (hcovers : Covers shown text) :
    text[front.length + lead.length]? = some '(' := by
  obtain ⟨-, after, -, -, hopen⟩ := hread.parts (atLineStart?_some h.found).2
  refine hcovers.opening ?_
  rw [← List.head?_drop, hopen, List.head?_cons]

theorem Located.lead_ne_nil (h : Located read shown text front lead body terminator back)
    (hread : DeclarationReader read) (hcovers : Covers shown text) : lead ≠ [] := by
  obtain ⟨_, lead', _, -, -, hlead, hhead⟩ := h.shown_eq hread hcovers
  rintro rfl
  rw [List.map_eq_nil_iff.mp hlead] at hhead
  cases hhead

theorem Located.body_ne_nil (h : Located read shown text front lead body terminator back) :
    body ≠ [] := by
  obtain ⟨lexemes, hblock, rfl, -⟩ := h.isBlock
  exact hblock.textOf_ne_nil

end Located

/-- Masking keeps offsets and line breaks and puts in nothing but spaces, and so what is located in the
masked text can be cut out of the text. -/
theorem mask_offsets (source : List Char) :
    (mask source).length = source.length ∧
    (∀ i : Nat, (mask source)[i]? = some '\n' ↔ source[i]? = some '\n') ∧
    (∀ i : Nat, (mask source)[i]? = source[i]? ∨ (mask source)[i]? = some ' ') ∧
    ∀ (name : List Char) (span : Span), locateTable source name = .ok (some span) →
      ∃ opening : Nat, (span.start < opening ∧ opening < span.stop ∧ span.stop ≤ source.length) ∧
        EndsLine (source.take span.start) ∧
        atLineStart? (tableDeclaration? name) true (mask source) =
          some (span.start, (mask source).drop opening) ∧
        source[opening]? = some '(' ∧ blockEnd source opening = .ok span.stop := by
  refine ⟨mask_length source, mask_break_iff source, mask_getElem? source, fun name span hlocate => ?_⟩
  have hread := reader_tableDeclaration name
  have hcovers := covers_mask source
  obtain ⟨front, lead, body, terminator, back, h, rfl⟩ :=
    exists_located hread hcovers (locateTable_iff.mp hlocate)
  have hend := h.blockEnd
  rw [List.length_append] at hend
  refine ⟨front.length + lead.length, ?_, ?_, h.found, h.opening hread hcovers, hend⟩
  · have hlead := List.length_pos_iff.mpr (h.lead_ne_nil hread hcovers)
    have hbody := List.length_pos_iff.mpr h.body_ne_nil
    have hlength := congrArg List.length h.text_eq
    simp only [List.length_append] at hlength ⊢
    omega
  · rw [h.text_eq, List.take_left]
    exact h.endsLine hread hcovers

/-- A comment before the declaration mentions the table, and one inside holds a parenthesis. -/
theorem mask_offsets_comments :
    let source := "/* sqliteTable(\"a\" */\nconst a = sqliteTable(\"a\", \x7b // (\n\x7d);\n".toList
    locateTable source "a".toList = .ok (some ⟨22, 60⟩) ∧
      (∃ opening : Nat, (22 < opening ∧ opening < 60 ∧ 60 ≤ source.length) ∧
        EndsLine (source.take 22) ∧
        atLineStart? (tableDeclaration? "a".toList) true (mask source) =
          some (22, (mask source).drop opening) ∧
        source[opening]? = some '(' ∧ blockEnd source opening = .ok 60) := by
  intro source
  have hlocate : locateTable source "a".toList = .ok (some ⟨22, 60⟩) := by decide +kernel
  exact ⟨hlocate, (mask_offsets source).2.2.2 "a".toList ⟨22, 60⟩ hlocate⟩

end SchemaScaffold.Source
