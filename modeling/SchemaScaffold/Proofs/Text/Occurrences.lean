import SchemaScaffold.Proofs.Text.Literals

/-!
Looking for a word piece by piece. A piece that does not end within the word can be looked at alone:
the word stands in a text exactly if it stands in one of its pieces. So what a text that was put
together tells is what its pieces tell.
-/

namespace SchemaScaffold.Text

/-- A text that ends with a character which the word does not hold, or is empty. It holds the word
exactly if `p`. -/
structure Tells {α : Type} (w s : List α) (p : Prop) : Prop where
  found : w <:+: s ↔ p
  closed : ∀ c ∈ s.getLast?, c ∉ w

namespace Tells

variable {α : Type} {w s t : List α} {p q : Prop}

theorem iff (h : Tells w s p) (hpq : p ↔ q) : Tells w s q := ⟨h.found.trans hpq, h.closed⟩

theorem nil (hw : w ≠ []) : Tells w [] False := ⟨by simpa using hw, nofun⟩

/-- No occurrence reaches over the end of a piece. -/
theorem append (hs : Tells w s p) (ht : Tells w t q) : Tells w (s ++ t) (p ∨ q) where
  found := by
    rw [List.infix_append_iff_ne_nil, hs.found, ht.found, ← or_assoc]
    refine or_iff_left ?_
    rintro ⟨front, back, hfront, -, rfl, hsuffix, -⟩
    obtain ⟨before, rfl⟩ := hsuffix
    obtain ⟨front, last, rfl⟩ := (List.eq_nil_or_concat front).resolve_left hfront
    rw [List.concat_eq_append] at hs
    refine hs.closed last ?_ (by simp)
    rw [← List.append_assoc, List.getLast?_concat]
    rfl
  closed := by
    intro c hc
    rw [List.getLast?_append] at hc
    rcases Option.or_eq_some_iff.mp hc with hc | ⟨-, hc⟩
    · exact ht.closed c hc
    · exact hs.closed c hc

/-- A piece without the word adds nothing. -/
theorem behind (hs : Tells w s False) (ht : Tells w t p) : Tells w (s ++ t) p :=
  (hs.append ht).iff (iff_of_eq (false_or p))

theorem before (hs : Tells w s p) (ht : Tells w t False) : Tells w (s ++ t) p :=
  (hs.append ht).iff (iff_of_eq (or_false p))

theorem flatMap {β : Type} {f : β → List α} {p : β → Prop} (hw : w ≠ []) {bs : List β}
    (h : ∀ b ∈ bs, Tells w (f b) (p b)) : Tells w (bs.flatMap f) (∃ b ∈ bs, p b) := by
  induction bs with
  | nil => exact (nil hw).iff (by simp)
  | cons b bs ih =>
    rw [List.flatMap_cons]
    have hrest := ih fun b' hb => h b' (List.mem_cons_of_mem _ hb)
    exact ((h b (by simp)).append hrest).iff (by simp)

/-- A text up to a character that the word does not hold tells what it tells without it. -/
theorem upTo {c : α} (hc : c ∉ w) (s : List α) : Tells w (s ++ [c]) (w <:+: s) where
  found := by
    constructor
    · intro h
      rcases List.infix_concat_iff.mp h with hsuffix | hwithin
      · rcases List.suffix_concat_iff.mp hsuffix with rfl | ⟨front, rfl, -⟩
        · exact List.nil_infix
        · exact absurd (by simp) hc
      · exact hwithin
    · intro h
      exact h.trans (List.prefix_append s [c]).isInfix
  closed := by
    rw [List.getLast?_concat]
    rintro d ⟨⟩
    exact hc

/-- A character of the word that a text does not hold tells that the word is not in it. -/
theorem lacks {c d : α} (hc : c ∈ w) (hs : c ∉ s) (hd : d ∉ w) : Tells w (s ++ [d]) False :=
  (upTo hd s).iff (iff_false_intro fun h => hs (h.subset hc))

end Tells

/-- Where a character closes a text and a word, and the text has no other, the word is its ending. -/
theorem concat_infix_iff {c : Char} {w s : List Char} (hc : c ∉ s) :
    w ++ [c] <:+: s ++ [c] ↔ w <:+ s := by
  constructor
  · intro h
    rcases List.infix_concat_iff.mp h with hsuffix | hwithin
    · rcases List.suffix_concat_iff.mp hsuffix with hnil | ⟨front, heq, hfront⟩
      · simp at hnil
      · rwa [(List.append_inj' heq rfl).1]
    · exact absurd (hwithin.subset (by simp)) hc
  · rintro ⟨front, rfl⟩
    exact ⟨front, [], by simp⟩

end SchemaScaffold.Text
