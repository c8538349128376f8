import SchemaScaffold.Proofs.Naming.Letters

/-!
Words and spellings of names. The words of a name are its characters without the separators, so a
spelling has the letters of the name in their order, cased and joined in its own way.
-/

namespace SchemaScaffold.Text

theorem split_ne_nil (p : Char → Bool) (cs : List Char) : split p cs ≠ [] := by
  fun_cases split p cs with
  | case1 => simp
  | case2 c cs _ => simp
  | case3 c cs _ _ => simp
  | case4 c cs _ _ _ _ => simp

/-- The pieces hold what is no separator, in order. -/
theorem split_flatten (p : Char → Bool) (cs : List Char) :
    (split p cs).flatten = cs.filter fun c => !p c := by
  fun_induction split p cs with
  | case1 => rfl
  | case2 c cs h ih => simp [h, ih]
  | case3 c cs h hnil _ => exact absurd hnil (split_ne_nil p cs)
  | case4 c cs h first others he ih =>
    rw [he] at ih
    simpa [h] using ih

theorem split_append (p : Char → Bool) {c : Char} (hc : p c = true) (a b : List Char) :
    split p (a ++ c :: b) = split p a ++ split p b := by
  fun_induction split p a with
  | case1 => simp [split, hc]
  | case2 d a h ih => simp [split, h, ih]
  | case3 d a h hnil _ => exact absurd hnil (split_ne_nil p a)
  | case4 d a h first others he ih => simp [split, h, ih, he]

/-- Without separators there is one piece. -/
theorem split_of_none {p : Char → Bool} {cs : List Char} (h : ∀ c ∈ cs, p c = false) :
    split p cs = [cs] := by
  induction cs with
  | nil => rfl
  | cons c cs ih =>
    rw [split, if_neg (by simp [h c]), ih fun d hd => h d (List.mem_cons_of_mem _ hd)]

theorem fields_of_none {p : Char → Bool} {cs : List Char} (hne : cs ≠ [])
    (h : ∀ c ∈ cs, p c = false) : fields p cs = [cs] := by
  simp [fields, split_of_none h, hne]

theorem fields_flatten (p : Char → Bool) (cs : List Char) :
    (fields p cs).flatten = cs.filter fun c => !p c := by
  rw [fields, ← split_flatten]
  induction split p cs with
  | nil => rfl
  | cons piece pieces ih => cases piece <;> simp [ih]

theorem fields_append (p : Char → Bool) {c : Char} (hc : p c = true) (a b : List Char) :
    fields p (a ++ c :: b) = fields p a ++ fields p b := by
  simp [fields, split_append p hc]

theorem fields_cons (p : Char → Bool) {c : Char} (hc : p c = false) (cs : List Char) :
    ∃ w ws, fields p (c :: cs) = (c :: w) :: ws := by
  rw [fields, split]
  simp only [hc, Bool.false_eq_true, if_false]
  split
  · exact ⟨[], [], by simp⟩
  · rename_i first others _
    exact ⟨first, others.filter fun piece => !piece.isEmpty, by simp⟩

theorem mem_fields {p : Char → Bool} {cs w : List Char} (h : w ∈ fields p cs) :
    w ≠ [] ∧ ∀ c ∈ w, c ∈ cs ∧ p c = false := by
  refine ⟨by simpa using (List.mem_filter.mp h).2, fun c hc => ?_⟩
  have : c ∈ (fields p cs).flatten := List.mem_flatten.mpr ⟨w, h, hc⟩
  rw [fields_flatten] at this
  simpa using List.mem_filter.mp this

end SchemaScaffold.Text

namespace SchemaScaffold.Naming

open Text

/-! ## Words -/

theorem separate_filter (cs : List Char) :
    (separate cs).filter (fun c => !isSeparator c) = cs.filter fun c => !isSeparator c := by
  have hspace : isSeparator ' ' = true := by decide
  fun_induction separate cs with
  | case1 a b cs h ih => simp only [List.filter_cons, ih, hspace]; simp
  | case2 a b cs h ih => simp only [List.filter_cons, ih]
  | case3 cs => rfl

/-- Nothing is separated where there is no capital. -/
theorem separate_of_small {cs : List Char} (h : ∀ c ∈ cs, c.isUpper = false) : separate cs = cs := by
  fun_induction separate cs with
  | case1 a b cs hs ih => simp [startsWord, h b (by simp)] at hs
  | case2 a b cs hs ih => rw [ih fun c hc => h c (List.mem_cons_of_mem _ hc)]
  | case3 cs => rfl

theorem separate_cons (c : Char) (cs : List Char) : ∃ rest, separate (c :: cs) = c :: rest := by
  cases cs with
  | nil => exact ⟨[], rfl⟩
  | cons d cs =>
    rw [separate]
    split
    · exact ⟨_, rfl⟩
    · exact ⟨_, rfl⟩

theorem words_flatten (s : String) :
    (words s).flatten = s.toList.filter fun c => !isSeparator c := by
  rw [words, fields_flatten, separate_filter]

theorem alphanum_not_separator {c : Char} (h : c.isAlphanum = true) : isSeparator c = false :=
  alphanum_forall (p := fun c => isSeparator c = false) (by decide) h

theorem filter_alphanum {cs : List Char} (h : ∀ c ∈ cs, c.isAlphanum = true) :
    (cs.filter fun c => !isSeparator c) = cs :=
  List.filter_eq_self.mpr fun c hc => by simp [alphanum_not_separator (h c hc)]

theorem words_alphanum {s : String} (h : ∀ c ∈ s.toList, isNameChar c = true) {w : List Char}
    (hw : w ∈ words s) : w ≠ [] ∧ ∀ c ∈ w, c.isAlphanum = true := by
  refine ⟨(mem_fields hw).1, fun c hc => ?_⟩
  have hmem : c ∈ (words s).flatten := List.mem_flatten.mpr ⟨w, hw, hc⟩
  rw [words_flatten] at hmem
  obtain ⟨hs, hsep⟩ := List.mem_filter.mp hmem
  exact nameChar_forall (p := fun c => (!isSeparator c) = true → c.isAlphanum = true) (by decide)
    (h c hs) hsep

/-! ## Spellings -/

theorem joinWords_toList (separator : String) (ws : List (List Char)) :
    (joinWords separator ws).toList = separator.toList.intercalate ws := by
  simp [joinWords, String.toList_intercalate, List.map_map, Function.comp_def]

theorem intercalate_nil_eq_flatten {α : Type} (ws : List (List α)) :
    ([] : List α).intercalate ws = ws.flatten := by
  induction ws with
  | nil => rfl
  | cons w ws ih =>
    cases ws with
    | nil => simp
    | cons v ws => rw [List.intercalate_cons_cons, ih]; simp

theorem mem_intercalate {α : Type} {separator : List α} {ws : List (List α)} {c : α}
    (h : c ∈ separator.intercalate ws) : c ∈ separator ∨ ∃ w ∈ ws, c ∈ w := by
  induction ws with
  | nil => simp at h
  | cons w ws ih =>
    cases ws with
    | nil => exact .inr ⟨w, by simp, by simpa using h⟩
    | cons v ws =>
      rw [List.intercalate_cons_cons] at h
      rcases List.mem_append.mp h with h | h
      · rcases List.mem_append.mp h with h | h
        · exact .inr ⟨w, by simp, h⟩
        · exact .inl h
      · rcases ih h with h | ⟨u, hu, hc⟩
        · exact .inl h
        · exact .inr ⟨u, List.mem_cons_of_mem _ hu, hc⟩

/-- The characters of a table name. -/
def isSnakeChar (c : Char) : Bool := c.isLower || c.isDigit || c == '_'

theorem isNameChar_of_isSnakeChar {c : Char} (h : isSnakeChar c = true) : isNameChar c = true := by
  simp only [isSnakeChar, Bool.or_eq_true] at h
  rcases h with (h | h) | h <;> simp [isNameChar, isAlphanum_eq, h]

theorem not_isUpper_snake {c : Char} (h : isSnakeChar c = true) : c.isUpper = false :=
  nameChar_forall (p := fun c => isSnakeChar c = true → c.isUpper = false) (by decide)
    (isNameChar_of_isSnakeChar h) h

theorem snakeCase_chars {s : String} (h : ∀ c ∈ s.toList, isNameChar c = true) :
    ∀ c ∈ (snakeCase s).toList, isSnakeChar c = true := by
  rw [snakeCase, joinWords_toList]
  intro c hc
  rcases mem_intercalate hc with hc | ⟨w, hw, hc⟩
  · rw [show c = '_' by simpa using hc]
    decide
  · obtain ⟨v, hv, rfl⟩ := List.mem_map.mp hw
    have := lower_alphanum (words_alphanum h hv).2 c hc
    simp [isSnakeChar, this]

theorem snakeCase_eq_empty {s : String} (h : ∀ c ∈ s.toList, isNameChar c = true) :
    snakeCase s = "" ↔ words s = [] := by
  rw [← String.toList_eq_nil_iff, snakeCase, joinWords_toList]
  refine ⟨fun he => ?_, fun he => by simp [he]⟩
  cases hw : words s with
  | nil => rfl
  | cons w ws =>
    have hne := (words_alphanum h (w := w) (by simp [hw])).1
    have hlower : lower w ≠ [] := by
      rw [lower_ascii fun c hc => isAlphanum_ascii ((words_alphanum h (by simp [hw])).2 c hc)]
      simpa using hne
    rw [hw] at he
    cases ws with
    | nil => simp [hlower] at he
    | cons v ws => simp [List.intercalate_cons_cons] at he

theorem camelCase_toList (s : String) {first : List Char} {others : List (List Char)}
    (h : words s = first :: others) :
    (camelCase s).toList = lower first ++ (others.map capitalize).flatten := by
  simp only [camelCase, h]
  rw [joinWords_toList, show "".toList = ([] : List Char) from rfl, intercalate_nil_eq_flatten]
  rfl

theorem camelCase_chars {s : String} (h : ∀ c ∈ s.toList, isNameChar c = true) :
    ∀ c ∈ (camelCase s).toList, c.isAlphanum = true := by
  cases hw : words s with
  | nil => simp [camelCase, hw]
  | cons first others =>
    rw [camelCase_toList s hw]
    refine List.forall_mem_append.mpr ⟨fun c hc => ?_, fun c hc => ?_⟩
    · have := lower_alphanum (words_alphanum h (by simp [hw])).2 c hc
      rcases Bool.or_eq_true_iff.mp this with h | h <;> simp [isAlphanum_eq, h]
    · obtain ⟨w, hmem, hc⟩ := List.mem_flatten.mp hc
      obtain ⟨v, hv, rfl⟩ := List.mem_map.mp hmem
      exact capitalize_alphanum (words_alphanum h (by simp [hw, hv])).2 c hc

theorem pascalCase_chars {s : String} (h : ∀ c ∈ s.toList, isNameChar c = true) :
    ∀ c ∈ (pascalCase s).toList, c.isAlphanum = true := by
  rw [pascalCase, joinWords_toList]
  intro c hc
  rcases mem_intercalate hc with hc | ⟨w, hw, hc⟩
  · cases hc
  · obtain ⟨v, hv, rfl⟩ := List.mem_map.mp hw
    exact capitalize_alphanum (words_alphanum h hv).2 c hc

theorem humanize_chars {s : String} (h : ∀ c ∈ s.toList, isNameChar c = true) :
    ∀ c ∈ (humanize s).toList, c = ' ' ∨ c.isAlphanum = true := by
  rw [humanize, joinWords_toList]
  intro c hc
  rcases mem_intercalate hc with hc | ⟨w, hw, hc⟩
  · exact .inl (by simpa using hc)
  · obtain ⟨v, hv, rfl⟩ := List.mem_map.mp hw
    exact .inr (capitalize_alphanum (words_alphanum h hv).2 c hc)

/-! ## The last letter of a spelling -/

theorem toLower_capitalize {w : List Char} (h : ∀ c ∈ w, c.isAlphanum = true) :
    (capitalize w).map Char.toLower = w.map Char.toLower := by
  cases w with
  | nil => rfl
  | cons c w =>
    have hc := h c (by simp)
    have hsame := alphanum_forall (p := fun c => c.toUpper.toLower = c.toLower) (by decide) hc
    rw [capitalize_cons w (isAlphanum_ascii hc), List.map_cons, List.map_cons, hsame]

theorem toLower_lower {w : List Char} (h : ∀ c ∈ w, c.isAlphanum = true) :
    (lower w).map Char.toLower = w.map Char.toLower := by
  rw [lower_ascii fun c hc => isAlphanum_ascii (h c hc), List.map_map]
  exact List.map_congr_left fun c hc => toLower_toLower (isAlphanum_ascii (h c hc))

/-- A camel-case spelling has the letters of the name, in their order. -/
theorem camelCase_letters {s : String} (h : ∀ c ∈ s.toList, isNameChar c = true) :
    (camelCase s).toList.map Char.toLower =
      (s.toList.filter fun c => !isSeparator c).map Char.toLower := by
  rw [← words_flatten]
  cases hw : words s with
  | nil => simp [camelCase, hw]
  | cons first others =>
    have hchars : ∀ w ∈ first :: others, ∀ c ∈ w, c.isAlphanum = true := fun w hmem =>
      (words_alphanum h (hw ▸ hmem)).2
    rw [camelCase_toList s hw, List.flatten_cons, List.map_append, List.map_append,
      toLower_lower (hchars first (by simp)), List.map_flatten, List.map_flatten, List.map_map]
    congr 2
    refine List.map_congr_left fun w hmem => ?_
    exact toLower_capitalize (hchars w (List.mem_cons_of_mem _ hmem))

/-- Separators stand at the end of no plural. -/
theorem EndsPlural.filter {cs : List Char} (h : ∀ c ∈ cs, isNameChar c = true) (hends : EndsPlural cs) :
    EndsPlural (cs.filter fun c => !isSeparator c) := by
  rcases List.eq_nil_or_concat cs with rfl | ⟨front, d, rfl⟩
  · exact hends
  · rw [List.concat_eq_append] at h hends ⊢
    have hd := hends d (by simp)
    have hkept := nameChar_forall (p := fun d => d.toLower ∈ pluralEndings → isSeparator d = false)
      (by decide) (h d (by simp)) hd
    intro c hc
    have hlast : d = c := by simpa [List.filter_append, hkept] using hc
    exact hlast ▸ hd

theorem EndsPlural.camelCase {s : String} (h : ∀ c ∈ s.toList, isNameChar c = true)
    (hends : EndsPlural s.toList) : EndsPlural (Naming.camelCase s).toList := by
  intro c hc
  have hlast := congrArg List.getLast? (camelCase_letters h)
  rw [List.getLast?_map, List.getLast?_map, hc, Option.map_some] at hlast
  obtain ⟨d, hd, he⟩ := Option.map_eq_some_iff.mp hlast.symm
  exact he ▸ hends.filter h d hd

/-- A plural does not end in `Enum`. -/
theorem EndsPlural.not_enum {cs : List Char} (h : EndsPlural cs) : ¬ "Enum".toList <:+ cs := by
  rintro ⟨front, rfl⟩
  have hm := h 'm' (by simp)
  exact absurd hm (by decide)

end SchemaScaffold.Naming
