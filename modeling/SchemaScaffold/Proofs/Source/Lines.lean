import SchemaScaffold.Proofs.Source.Masking
import SchemaScaffold.Source.Declaration

/-!
Constants at the starts of lines. A declaration is looked for at every start of a line, and reading
one never goes on from the end of a text into a statement that follows it: what comes next would
have to be a word, an equals sign or a parenthesis, and it is the word `export`.
-/

namespace SchemaScaffold.Source

open Text

/-! ## Readers in front of more text -/

theorem EndsLine.suffix {a b : List Char} (h : EndsLine a) (hs : b <:+ a) : EndsLine b := by
  obtain ⟨front, rfl⟩ := hs
  exact h.right

theorem takeWhile_append_of_mem {p : Char → Bool} {a : List Char} {c : Char} (hc : c ∈ a)
    (hp : p c = false) (b : List Char) : (a ++ b).takeWhile p = a.takeWhile p ∧
      (a ++ b).dropWhile p = a.dropWhile p ++ b ∧ a.dropWhile p ≠ [] := by
  induction a with
  | nil => cases hc
  | cons d a ih =>
    by_cases hd : p d = true
    · have hmem : c ∈ a := by
        rcases List.mem_cons.mp hc with rfl | hc
        · rw [hp] at hd
          cases hd
        · exact hc
      simpa [hd] using ih hmem
    · simp [hd]

theorem dropWhile_append_of_head {p : Char → Bool} (a : List Char) {c : Char} (hp : p c = false)
    (b : List Char) : (a ++ c :: b).dropWhile p = a.dropWhile p ++ c :: b := by
  induction a with
  | nil => simp [hp]
  | cons d a ih =>
    by_cases hd : p d = true
    · simpa [hd] using ih
    · simp [hd]

theorem dropText?_eq {expected cs rest : List Char} (h : dropText? expected cs = some rest) :
    cs = expected ++ rest := by
  fun_induction dropText? expected cs with
  | case1 => cases h; rfl
  | case2 => cases h
  | case3 e expected c cs he ih => rw [ih h, List.cons_append, beq_iff_eq.mp he]
  | case4 => cases h

theorem dropText?_append (expected cs : List Char) : dropText? expected (expected ++ cs) = some cs := by
  induction expected with
  | nil => cases cs <;> rfl
  | cons e expected ih => simp [dropText?, ih]

/-- A text without a line break is read within the line, or not at all. -/
theorem EndsLine.dropText? {expected a : List Char} (hexpected : '\n' ∉ expected) (ha : EndsLine a)
    (hne : a ≠ []) (b : List Char) :
    Text.dropText? expected (a ++ b) = (Text.dropText? expected a).map (· ++ b) := by
  induction expected generalizing a with
  | nil => cases a <;> rfl
  | cons e expected ih =>
    cases a with
    | nil => exact absurd rfl hne
    | cons c a =>
      rw [List.cons_append, Text.dropText?, Text.dropText?]
      by_cases he : (e == c) = true
      · rw [if_pos he, if_pos he]
        refine ih (fun h => hexpected (List.mem_cons_of_mem _ h)) ha.tail ?_
        rintro rfl
        have hc := ha c (by simp)
        rw [← beq_iff_eq.mp he] at hc
        exact hexpected (by simp [hc])
      · rw [if_neg he, if_neg he]
        rfl

theorem EndsLine.rest_ne_nil {expected a rest : List Char} (hexpected : '\n' ∉ expected)
    (ha : EndsLine a) (hne : a ≠ []) (h : Text.dropText? expected a = some rest) : rest ≠ [] := by
  rintro rfl
  rw [dropText?_eq h, List.append_nil] at ha hne
  exact hexpected (ha.mem hne)

theorem dropText?_suffix {expected cs rest : List Char} (h : dropText? expected cs = some rest) :
    rest <:+ cs := by
  rw [dropText?_eq h]
  exact List.suffix_append _ _

theorem skipBlanks_suffix (cs : List Char) : skipBlanks cs <:+ cs := List.dropWhile_suffix _

theorem blanks?_suffix {cs rest : List Char} (h : blanks? cs = some rest) : rest <:+ cs := by
  unfold blanks? at h
  split at h
  · cases h
    exact skipBlanks_suffix cs
  · cases h

theorem skipExport_suffix (cs : List Char) : skipExport cs <:+ cs := by
  unfold skipExport
  cases h : (dropText? "export".toList cs).bind blanks? with
  | none => exact List.suffix_refl cs
  | some rest =>
    obtain ⟨r, hr, hblanks⟩ := Option.bind_eq_some_iff.mp h
    exact (blanks?_suffix hblanks).trans (dropText?_suffix hr)

/-- The pieces that a constant is read from. -/
theorem constant?_eq_some {cs name value : List Char} (h : constant? cs = some (name, value)) :
    ∃ a b c d, dropText? "const".toList (skipExport (skipInlineBlanks cs)) = some a ∧
      blanks? a = some b ∧ word? b = some (name, c) ∧ dropText? ['='] (skipBlanks c) = some d ∧
      value = skipBlanks d := by
  simp only [constant?, Option.bind_eq_bind, Option.bind_eq_some_iff] at h
  obtain ⟨a, ha, b, hb, ⟨name', c⟩, hc, d, hd, he⟩ := h
  cases he
  exact ⟨a, b, c, d, ha, hb, hc, hd, rfl⟩

theorem word?_eq_some {cs word rest : List Char} (h : word? cs = some (word, rest)) :
    word = cs.takeWhile isWordChar ∧ rest = cs.dropWhile isWordChar ∧ word ≠ [] := by
  unfold word? at h
  split at h
  · rename_i hhead
    cases h
    cases cs with
    | nil => cases hhead
    | cons c cs =>
      have hc : isWordChar c = true := by simpa using hhead
      simp [hc]
  · cases h

theorem constant?_suffix {cs name value : List Char} (h : constant? cs = some (name, value)) :
    value <:+ cs := by
  obtain ⟨a, b, c, d, ha, hb, hc, hd, rfl⟩ := constant?_eq_some h
  obtain ⟨-, rfl, -⟩ := word?_eq_some hc
  have hvalue : skipBlanks d <:+ b :=
    (skipBlanks_suffix d).trans ((dropText?_suffix hd).trans
      ((skipBlanks_suffix _).trans (List.dropWhile_suffix _)))
  have hconst : b <:+ cs :=
    (blanks?_suffix hb).trans ((dropText?_suffix ha).trans
      ((skipExport_suffix _).trans (List.dropWhile_suffix _)))
  exact hvalue.trans hconst

/-! ## No constant across the end of a text -/

/-- The start of an exported constant. -/
def Exports (b : List Char) : Prop := "export const ".toList <+: b

theorem Exports.append {b : List Char} (hb : Exports b) (rest : List Char) : Exports (b ++ rest) :=
  hb.trans (List.prefix_append b rest)

section Exports

/-- A name, an equals sign, and what stands behind them. -/
def binding? (cs : List Char) : Option (List Char × List Char) := do
  let (name, cs) ← word? cs
  let cs ← dropText? ['='] (skipBlanks cs)
  some (name, skipBlanks cs)

theorem constant?_eq (cs : List Char) : constant? cs =
    ((dropText? "const".toList (skipExport (skipInlineBlanks cs))).bind blanks?).bind binding? := by
  rw [Option.bind_assoc]
  rfl

variable {a b : List Char} (ha : EndsLine a) (hb : Exports b)

include hb

theorem Exports.cons : ∃ rest, b = 'e' :: 'x' :: 'p' :: 'o' :: 'r' :: 't' :: ' ' :: 'c' :: rest := by
  obtain ⟨rest, rfl⟩ := hb
  exact ⟨_, rfl⟩

theorem skipBlanks_exports (a : List Char) : skipBlanks (a ++ b) = skipBlanks a ++ b := by
  obtain ⟨rest, rfl⟩ := hb.cons
  exact dropWhile_append_of_head a (by decide) _

theorem skipInlineBlanks_exports (a : List Char) :
    skipInlineBlanks (a ++ b) = skipInlineBlanks a ++ b := by
  obtain ⟨rest, rfl⟩ := hb.cons
  exact dropWhile_append_of_head a (by decide) _

omit hb in
theorem head?_append_of_ne {a : List Char} (hne : a ≠ []) (b : List Char) :
    (a ++ b).head? = a.head? := by
  cases a with
  | nil => exact absurd rfl hne
  | cons c a => rfl

theorem blanks?_exports {a : List Char} (hne : a ≠ []) :
    blanks? (a ++ b) = (blanks? a).map (· ++ b) := by
  unfold blanks?
  rw [head?_append_of_ne hne, skipBlanks_exports hb]
  split <;> rfl

omit hb in
include ha in
theorem word?_exports (hne : a ≠ []) (b : List Char) :
    word? (a ++ b) = (word? a).map fun (word, rest) => (word, rest ++ b) := by
  unfold word?
  obtain ⟨htake, hdrop, -⟩ := takeWhile_append_of_mem (ha.mem hne) (by decide : isWordChar '\n' = false) b
  rw [head?_append_of_ne hne, htake, hdrop]
  split <;> rfl

/-- The word `export` is no name: no equals sign follows it. -/
theorem exports_no_name {word rest : List Char} (h : word? b = some (word, rest)) :
    dropText? ['='] (skipBlanks rest) = none := by
  obtain ⟨rest', rfl⟩ := hb.cons
  cases h
  rfl

include ha

theorem skipExport_exports (hne : a ≠ []) : skipExport (a ++ b) = skipExport a ++ b := by
  unfold skipExport
  rw [ha.dropText? (by decide) hne]
  cases h : dropText? "export".toList a with
  | none => rfl
  | some rest =>
    rw [Option.map_some, Option.bind_some, Option.bind_some,
      blanks?_exports hb (ha.rest_ne_nil (by decide) hne h)]
    cases blanks? rest <;> rfl

theorem dropChar_exports {c : Char} (hbreak : c ≠ '\n') (he : c ≠ 'e') :
    dropText? [c] (a ++ b) = (dropText? [c] a).map (· ++ b) := by
  by_cases hne : a = []
  · obtain ⟨rest, rfl⟩ := hb.cons
    subst hne
    simp [dropText?, he]
  · exact ha.dropText? (by simpa using Ne.symm hbreak) hne b

theorem openCall?_exports : openCall? (a ++ b) = (openCall? a).map (· ++ b) := by
  unfold openCall?
  rw [skipBlanks_exports hb]
  exact dropChar_exports (ha.suffix (skipBlanks_suffix a)) hb (by decide) (by decide)

/-- The binding of a constant is read within a text, or not at all. -/
theorem binding?_exports :
    binding? (a ++ b) = (binding? a).map fun (name, value) => (name, value ++ b) := by
  by_cases hne : a = []
  · subst hne
    have hempty : binding? ([] : List Char) = none := rfl
    rw [List.nil_append, hempty]
    unfold binding?
    cases h : word? b with
    | none => rfl
    | some parts =>
      simp only [Option.bind_eq_bind, Option.bind_some, exports_no_name hb h]
      rfl
  · unfold binding?
    rw [word?_exports ha hne]
    cases h : word? a with
    | none => rfl
    | some parts =>
      obtain ⟨-, hrest, -⟩ := word?_eq_some h
      have hline : EndsLine (skipBlanks parts.2) := by
        rw [hrest]
        exact ha.suffix ((skipBlanks_suffix _).trans (List.dropWhile_suffix _))
      simp only [Option.bind_eq_bind, Option.map_some, Option.bind_some, skipBlanks_exports hb,
        dropChar_exports hline hb (by decide : '=' ≠ '\n') (by decide)]
      cases dropText? ['='] (skipBlanks parts.2) with
      | none => rfl
      | some value => simp [skipBlanks_exports hb]

/-- A constant is read within a text, or not at all. -/
theorem constant?_exports (hne : a ≠ []) :
    constant? (a ++ b) = (constant? a).map fun (name, value) => (name, value ++ b) := by
  have hinline : skipInlineBlanks a ≠ [] :=
    (takeWhile_append_of_mem (ha.mem hne) (by decide : isInlineBlank '\n' = false) b).2.2
  have hline : EndsLine (skipInlineBlanks a) := ha.suffix (List.dropWhile_suffix _)
  have hexport : EndsLine (skipExport (skipInlineBlanks a)) := hline.suffix (skipExport_suffix _)
  have hconst : dropText? "const".toList (skipExport (skipInlineBlanks (a ++ b))) =
      (dropText? "const".toList (skipExport (skipInlineBlanks a))).map (· ++ b) := by
    rw [skipInlineBlanks_exports hb, skipExport_exports hline hb hinline]
    by_cases hnil : skipExport (skipInlineBlanks a) = []
    · obtain ⟨rest, rfl⟩ := hb.cons
      rw [hnil]
      rfl
    · exact hexport.dropText? (by decide) hnil b
  rw [constant?_eq, constant?_eq, hconst]
  cases h1 : dropText? "const".toList (skipExport (skipInlineBlanks a)) with
  | none => rfl
  | some c1 =>
    have hne1 : skipExport (skipInlineBlanks a) ≠ [] := by
      intro hnil
      rw [hnil] at h1
      cases h1
    simp only [Option.map_some, Option.bind_some,
      blanks?_exports hb (hexport.rest_ne_nil (by decide) hne1 h1)]
    cases h2 : blanks? c1 with
    | none => rfl
    | some c2 => exact binding?_exports (hexport.suffix ((blanks?_suffix h2).trans (dropText?_suffix h1))) hb

end Exports
end SchemaScaffold.Source
