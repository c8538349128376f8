import SchemaScaffold.Proofs.Source.Statements

/-!
Comments and import statements. Tables are looked for where comments are blanked out, imports in the
text as it stands. Both show the same import statements exactly if no comment touches one: a
statement in a comment stands in the text alone, one behind a comment on its first line stands in
the masked text alone, and one with a comment among its symbols reads differently in the two.
-/

namespace SchemaScaffold.Source

open Text

/-- The import statement at the start of a line, word for word up to the closing quote. -/
def importText? (cs : List Char) : Option (List Char) :=
  (importParts? cs).map fun (_, _, rest) => cs.take (cs.length - rest.length)

/-- Wherever a line starts, the import statement that one of the texts has there stands in the other
as well. -/
def SameImports (s t : List Char) : Prop :=
  ∀ n < s.length, EndsLine (s.take n) →
    (∀ text ∈ importText? (s.drop n), text <+: t.drop n) ∧
      ∀ text ∈ importText? (t.drop n), text <+: s.drop n

instance (s t : List Char) : Decidable (SameImports s t) :=
  inferInstanceAs (Decidable (∀ n < s.length, EndsLine (s.take n) →
    (∀ text ∈ importText? (s.drop n), text <+: t.drop n) ∧
      ∀ text ∈ importText? (t.drop n), text <+: s.drop n))

theorem importText?_iff {cs text : List Char} : importText? cs = some text ↔
    ∃ list module rest, IsImport list module text ∧ cs = text ++ rest := by
  rw [importText?, Option.map_eq_some_iff]
  constructor
  · rintro ⟨⟨list, module, rest⟩, hparts, htext⟩
    obtain ⟨text', hstatement, rfl⟩ := importParts?_iff.mp hparts
    obtain rfl : text' = text := by simpa using htext
    exact ⟨list, module, rest, hstatement, rfl⟩
  · rintro ⟨list, module, rest, hstatement, rfl⟩
    exact ⟨(list, module, rest), importParts?_iff.mpr ⟨text, hstatement, rfl⟩, by simp⟩

/-- A statement is read wherever it stands. -/
theorem importText?_of_start {s t text : List Char} (h : importText? s = some text)
    (ht : text <+: t) : importText? t = some text := by
  obtain ⟨list, module, -, hstatement, -⟩ := importText?_iff.mp h
  obtain ⟨rest, rfl⟩ := ht
  exact importText?_iff.mpr ⟨list, module, rest, hstatement, rfl⟩

theorem prefix_of_importText? {s text : List Char} (h : importText? s = some text) : text <+: s := by
  obtain ⟨-, -, rest, -, rfl⟩ := importText?_iff.mp h
  exact List.prefix_append text rest

/-- The same statements stand in two texts exactly if the same is read at every start of a line. -/
theorem sameImports_iff {s t : List Char} : SameImports s t ↔
    ∀ n < s.length, EndsLine (s.take n) → importText? (t.drop n) = importText? (s.drop n) := by
  refine forall_congr' fun n => forall_congr' fun _ => forall_congr' fun _ => ⟨fun h => ?_, fun h => ?_⟩
  · cases hs : importText? (s.drop n) with
    | some text => exact importText?_of_start hs (h.1 text hs)
    | none =>
      rw [Option.eq_none_iff_forall_ne_some]
      intro text ht
      rw [importText?_of_start ht (h.2 text ht)] at hs
      cases hs
  · exact ⟨fun text hs => prefix_of_importText? (h.trans hs),
      fun text ht => prefix_of_importText? (h.symm.trans ht)⟩

/-! ## Two texts with the same lines -/

theorem nextLine_length (cs : List Char) : (nextLine cs).length ≤ cs.length - 1 := by
  rw [nextLine, List.length_tail]
  exact Nat.sub_le_sub_right (dropWhile_length_le (· != '\n') cs) 1

/-- The next lines of two texts with the same line breaks start at the same place. -/
theorem nextLine_pair {s t : List Char} (hbreaks : s.map (· == '\n') = t.map (· == '\n')) :
    nextLine s = [] ∧ nextLine t = [] ∨
      ∃ a b, s = a ++ ['\n'] ++ nextLine s ∧ t = b ++ ['\n'] ++ nextLine t ∧
        a.length = b.length := by
  induction s generalizing t with
  | nil =>
    obtain rfl : t = [] := by simpa using hbreaks.symm
    exact .inl ⟨rfl, rfl⟩
  | cons c s ih =>
    cases t with
    | nil => simp at hbreaks
    | cons d t =>
      rw [List.map_cons, List.map_cons, List.cons.injEq] at hbreaks
      obtain ⟨hhead, htail⟩ := hbreaks
      by_cases hc : c = '\n'
      · have hd : d = '\n' := by simpa [hc] using hhead.symm
        rw [hc, hd]
        exact .inr ⟨[], [], rfl, rfl, rfl⟩
      · have hd : d ≠ '\n' := by
          rintro rfl
          exact hc (by simpa using hhead)
        rw [nextLine_cons hc, nextLine_cons hd]
        refine (ih htail).imp_right ?_
        rintro ⟨a, b, hs, ht, hlength⟩
        exact ⟨c :: a, d :: b, congrArg (c :: ·) hs, congrArg (d :: ·) ht, by simp [hlength]⟩

/-- Texts with the same lines, which have the same import statements. -/
structure Matched (s t : List Char) : Prop where
  breaks : s.map (· == '\n') = t.map (· == '\n')
  imports : SameImports s t

theorem Matched.nil : Matched [] [] := ⟨rfl, fun _ hn => absurd hn (Nat.not_lt_zero _)⟩

theorem breaks_right {a b s t : List Char}
    (h : (a ++ s).map (· == '\n') = (b ++ t).map (· == '\n')) (hlength : a.length = b.length) :
    s.map (· == '\n') = t.map (· == '\n') := by
  rw [List.map_append, List.map_append] at h
  exact (List.append_inj h (by simpa using hlength)).2

/-- What stands behind pieces of one length matches, if it starts a line. -/
theorem Matched.right {a b s t : List Char} (h : Matched (a ++ s) (b ++ t))
    (hlength : a.length = b.length) (hline : EndsLine a) : Matched s t where
  breaks := breaks_right h.breaks hlength
  imports n hn hends := by
    have hplace := h.imports (a.length + n) (by simpa using hn) (by
      rw [List.take_length_add_append]
      exact hline.append hends)
    rwa [List.drop_length_add_append, hlength, List.drop_length_add_append] at hplace

/-- The lines behind pieces of one length match. -/
theorem Matched.nextLine {a b s t : List Char} (h : Matched (a ++ s) (b ++ t))
    (hlength : a.length = b.length) : Matched (nextLine s) (nextLine t) := by
  rcases nextLine_pair (breaks_right h.breaks hlength) with ⟨hs, ht⟩ | ⟨c, d, hs, ht, hcd⟩
  · rw [hs, ht]
    exact .nil
  · have hparts : ∀ {x y z : List Char} (w), x = y ++ ['\n'] ++ z → w ++ x = (w ++ y ++ ['\n']) ++ z := by
      rintro _ y z w rfl
      simp only [List.append_assoc]
    rw [hparts a hs, hparts b ht] at h
    exact h.right (by simp [hlength, hcd]) (endsLine_concat _)

/-- Matched texts have the same statements. By induction on the length: one statement is read in
both, or none, and both go on where their next lines start. -/
theorem Matched.statements {s t : List Char} (h : Matched s t) : statements s = statements t := by
  induction hk : s.length using Nat.strongRecOn generalizing s t with
  | ind k ih =>
    subst hk
    by_cases hnil : s = []
    · obtain rfl : t = [] := by simpa [hnil] using h.breaks.symm
      rw [hnil]
    · have hpos := List.length_pos_iff.mpr hnil
      have hread := sameImports_iff.mp h.imports 0 hpos endsLine_nil
      rw [List.drop_zero, List.drop_zero] at hread
      cases hs : importParts? s with
      | none =>
        have ht : importParts? t = none := by
          simpa [importText?, hs] using hread
        have hnext : Matched (Source.nextLine s) (Source.nextLine t) :=
          Matched.nextLine (a := []) (b := []) h rfl
        have hshorter : (Source.nextLine s).length < s.length := by
          have hle := nextLine_length s
          omega
        rw [statements_none hs, statements_none ht, ih _ hshorter hnext rfl]
      | some parts =>
        obtain ⟨list, module, rest⟩ := parts
        obtain ⟨text, hstatement, rfl⟩ := importParts?_iff.mp hs
        have htext := importText?_iff.mpr ⟨list, module, rest, hstatement, rfl⟩
        obtain ⟨rest', rfl⟩ := prefix_of_importText? (hread.trans htext)
        have ht : importParts? (text ++ rest') = some (list, module, rest') :=
          importParts?_iff.mpr ⟨text, hstatement, rfl⟩
        have hshorter : (Source.nextLine rest).length < (text ++ rest).length := by
          have hle := nextLine_length rest
          rw [List.length_append] at hpos ⊢
          omega
        rw [statements_some hs, statements_some ht, ih _ hshorter (h.nextLine rfl) rfl]

end SchemaScaffold.Source
