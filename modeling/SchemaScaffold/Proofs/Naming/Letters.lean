import SchemaScaffold.Naming.Model

/-!
The characters that names are made of. A model name holds letters and digits, and at most one line
break at its end. Inflection keeps that class, splitting into words drops the line break, so every
spelling holds letters and digits only, joined by its separator.
-/

namespace SchemaScaffold.Text

theorem chomp_append (cs : List Char) : (chomp cs).1 ++ (chomp cs).2 = cs := by
  unfold chomp
  split
  · rename_i hlast
    obtain ⟨ds, rfl⟩ := List.getLast?_eq_some_iff.mp (by simpa using hlast)
    simp
  · simp

theorem chomp_snd (cs : List Char) : (chomp cs).2 = [] ∨ (chomp cs).2 = ['\n'] := by
  unfold chomp
  split
  · exact .inr rfl
  · exact .inl rfl

theorem mem_chomp_snd {cs : List Char} {c : Char} (h : c ∈ (chomp cs).2) : c = '\n' := by
  rcases chomp_snd cs with he | he
  · rw [he] at h
    cases h
  · rw [he] at h
    exact List.mem_singleton.mp h

theorem chomp_eq {cs : List Char} (h : '\n' ∉ cs) : chomp cs = (cs, []) := by
  have hlast : ¬ (cs.getLast? == some '\n') = true := by
    intro hlast
    exact h (List.mem_of_getLast? (by simpa using hlast))
  rw [chomp, if_neg hlast]

theorem chomp_concat (cs : List Char) : chomp (cs ++ ['\n']) = (cs, ['\n']) := by
  simp [chomp]

end SchemaScaffold.Text

namespace SchemaScaffold.Naming

open Text

/-- A fact about ASCII holds if it holds of each of the 128 characters. -/
theorem ascii_forall {p : Char → Prop} (h : ∀ n : Fin 128, p (Char.ofNat n)) {c : Char}
    (hc : c.toNat < 128) : p c := by
  have := h ⟨c.toNat, hc⟩
  rwa [Char.ofNat_toNat] at this

theorem isAlphanum_eq (c : Char) : c.isAlphanum = ((c.isUpper || c.isLower) || c.isDigit) := rfl

theorem isAlphanum_ascii {c : Char} (h : c.isAlphanum = true) : c.toNat < 128 := by
  have hbound : ∀ last : UInt32, last ≤ 122 → c.val ≤ last → c.toNat < 128 := by
    intro last hlast hc
    have := UInt32.le_iff_toNat_le.mp (UInt32.le_trans hc hlast)
    exact Nat.lt_of_le_of_lt this (by decide)
  rw [isAlphanum_eq] at h
  rcases Bool.or_eq_true_iff.mp h with h | h
  · rcases Bool.or_eq_true_iff.mp h with h | h
    · exact hbound 'Z'.val (by decide) (of_decide_eq_true h).2
    · exact hbound 'z'.val (by decide) (of_decide_eq_true (Bool.and_eq_true_iff.mp h).2)
  · exact hbound '9'.val (by decide) (of_decide_eq_true (Bool.and_eq_true_iff.mp h).2)

/-- The characters of a name before it is split into words. -/
def isNameChar (c : Char) : Bool := c.isAlphanum || c == '_' || c == '\n'

theorem isNameChar_ascii {c : Char} (h : isNameChar c = true) : c.toNat < 128 := by
  simp only [isNameChar, Bool.or_eq_true, beq_iff_eq] at h
  rcases h with (h | rfl) | rfl
  · exact isAlphanum_ascii h
  · decide
  · decide

/-- A fact about the characters of names holds if it holds of those in ASCII. -/
theorem nameChar_forall {p : Char → Prop}
    (h : ∀ n : Fin 128, isNameChar (Char.ofNat n) = true → p (Char.ofNat n)) {c : Char}
    (hc : isNameChar c = true) : p c :=
  ascii_forall (p := fun c => isNameChar c = true → p c) h (isNameChar_ascii hc) hc

theorem isNameChar_of_isAlphanum {c : Char} (h : c.isAlphanum = true) : isNameChar c = true := by
  simp [isNameChar, h]

/-- A fact about letters and digits holds if it holds of those in ASCII. -/
theorem alphanum_forall {p : Char → Prop}
    (h : ∀ n : Fin 128, (Char.ofNat n).isAlphanum = true → p (Char.ofNat n)) {c : Char}
    (hc : c.isAlphanum = true) : p c :=
  ascii_forall (p := fun c => c.isAlphanum = true → p c) h (isAlphanum_ascii hc) hc

/-! ## Letter case -/

theorem not_isLower_of_isUpper {c : Char} (h : c.isUpper = true) : c.isLower = false :=
  alphanum_forall (p := fun c => c.isUpper = true → c.isLower = false) (by decide)
    (by simp [isAlphanum_eq, h]) h

theorem lowerAfter_ascii {cs : List Char} (h : ∀ c ∈ cs, c.toNat < 128) (before : Bool) :
    lowerAfter before cs = cs.map Char.toLower := by
  induction cs generalizing before with
  | nil => rfl
  | cons c cs ih =>
    have hc := h c (by simp)
    have hsigma := ascii_forall (p := fun c => (c == 'Σ') = false) (by decide) hc
    rw [lowerAfter, hsigma, ih (fun d hd => h d (by simp [hd]))]
    simp [lowerChar, hc]

/-- On ASCII lower case goes character by character. -/
theorem lower_ascii {cs : List Char} (h : ∀ c ∈ cs, c.toNat < 128) :
    lower cs = cs.map Char.toLower :=
  lowerAfter_ascii h false

theorem lower_alphanum {cs : List Char} (h : ∀ c ∈ cs, c.isAlphanum = true) :
    ∀ c ∈ lower cs, (c.isLower || c.isDigit) = true := by
  rw [lower_ascii fun c hc => isAlphanum_ascii (h c hc)]
  intro c hc
  obtain ⟨d, hd, rfl⟩ := List.mem_map.mp hc
  exact alphanum_forall (p := fun c => c.toLower.isLower || c.toLower.isDigit) (by decide) (h d hd)

theorem capitalize_cons {c : Char} (cs : List Char) (h : c.toNat < 128) :
    capitalize (c :: cs) = c.toUpper :: cs := by
  simp [capitalize, upperChar, h]

theorem capitalize_alphanum {cs : List Char} (h : ∀ c ∈ cs, c.isAlphanum = true) :
    ∀ c ∈ capitalize cs, c.isAlphanum = true := by
  cases cs with
  | nil => simp [capitalize]
  | cons a cs =>
    have ha := h a (by simp)
    rw [capitalize_cons cs (isAlphanum_ascii ha)]
    intro c hc
    rcases List.mem_cons.mp hc with rfl | hc
    · exact alphanum_forall (p := fun c => c.toUpper.isAlphanum) (by decide) ha
    · exact h c (by simp [hc])

/-! ## Inflection -/

theorem splitAtLastCapital_append {cs head word : List Char}
    (h : splitAtLastCapital cs = some (head, word)) : head ++ word = cs := by
  induction cs generalizing head word with
  | nil => simp [splitAtLastCapital] at h
  | cons c cs ih =>
    rw [splitAtLastCapital] at h
    split at h
    · rename_i head' word' hs
      cases h
      simp [ih hs]
    · split at h
      · cases h; rfl
      · simp at h

theorem splitLastWord_append (cs : List Char) : (splitLastWord cs).1 ++ (splitLastWord cs).2 = cs := by
  unfold splitLastWord
  cases h : splitAtLastCapital cs with
  | none => rfl
  | some parts => exact splitAtLastCapital_append h

theorem splitLastWord_eq_nil {cs : List Char} (h : (splitLastWord cs).2 = []) : cs = [] := by
  have hne : ∀ cs head word, splitAtLastCapital cs = some (head, word) → word ≠ [] := by
    intro cs
    induction cs with
    | nil => simp [splitAtLastCapital]
    | cons c cs ih =>
      intro head word hs
      rw [splitAtLastCapital] at hs
      split at hs
      · rename_i head' word' hs'
        cases hs
        exact ih head' word hs'
      · split at hs
        · cases hs; simp
        · simp at hs
  unfold splitLastWord at h
  cases hs : splitAtLastCapital cs with
  | none => simpa [hs] using h
  | some parts => exact absurd (by simpa [hs] using h) (hne cs parts.1 parts.2 hs)

theorem mem_of_lookup {α β : Type} [BEq α] [LawfulBEq α] {key : α} {value : β} {table : List (α × β)}
    (h : table.lookup key = some value) : (key, value) ∈ table := by
  obtain ⟨before, after, rfl, -⟩ := List.lookup_eq_some_iff.mp h
  simp

theorem matchCase_alphanum (model : List Char) {word : String}
    (h : ∀ c ∈ word.toList, c.isAlphanum = true) : ∀ c ∈ matchCase model word, c.isAlphanum = true := by
  unfold matchCase
  split
  · exact capitalize_alphanum h
  · exact h

theorem irregular_alphanum :
    ∀ entry ∈ irregularPlurals, (∀ c ∈ entry.1.toList, c.isAlphanum = true) ∧
      ∀ c ∈ entry.2.toList, c.isAlphanum = true := by
  have hall : irregularPlurals.all (fun entry =>
      entry.1.toList.all Char.isAlphanum && entry.2.toList.all Char.isAlphanum) = true := by decide
  intro entry hentry
  obtain ⟨hone, hmany⟩ := Bool.and_eq_true_iff.mp (List.all_eq_true.mp hall entry hentry)
  exact ⟨List.all_eq_true.mp hone, List.all_eq_true.mp hmany⟩

theorem irregularSingulars_alphanum {key one : String}
    (h : irregularSingulars.lookup key = some one) : ∀ c ∈ one.toList, c.isAlphanum = true := by
  obtain ⟨entry, hentry, he⟩ := List.mem_map.mp (mem_of_lookup h)
  cases he
  exact (irregular_alphanum entry hentry).1

theorem irregularPlurals_alphanum {key many : String}
    (h : irregularPlurals.lookup key = some many) : ∀ c ∈ many.toList, c.isAlphanum = true :=
  (irregular_alphanum _ (mem_of_lookup h)).2

/-- What the last word of a name becomes in the plural: a word of the tables is kept or has its own
plural, and any other takes an ending. -/
inductive WordPlural (word : List Char) : List Char → Prop
  | kept (h : lower word = [] ∨ uncountable.contains (String.ofList (lower word)) = true ∨
      (irregularSingulars.lookup (String.ofList (lower word))).isSome = true) : WordPlural word word
  | irregular {many : String}
      (h : irregularPlurals.lookup (String.ofList (lower word)) = some many) :
      WordPlural word (matchCase word many)
  | ies (h : endsInConsonantY (lower word) = true) :
      WordPlural word (dropLast 1 word ++ "ies".toList)
  | es : WordPlural word (word ++ "es".toList)
  | s : WordPlural word (word ++ "s".toList)

/-- What the last word of a name becomes in the singular: it is kept, has its own singular, or is
cut short. -/
inductive WordSingular (word : List Char) : List Char → Prop
  | kept : WordSingular word word
  | irregular {one : String}
      (h : irregularSingulars.lookup (String.ofList (lower word)) = some one) :
      WordSingular word (matchCase word one)
  | y : WordSingular word (dropLast 3 word ++ "y".toList)
  | cut (n : Nat) : WordSingular word (dropLast n word)

/-- A name is put in the plural at its last word, and has a last word unless it is empty. -/
theorem pluralChars_cases (cs : List Char) : ∃ head word many, head ++ word = cs ∧
    (word = [] → cs = []) ∧ pluralChars cs = head ++ many ∧ WordPlural word many := by
  obtain ⟨head, word, hparts⟩ : ∃ head word, splitLastWord cs = (head, word) := ⟨_, _, rfl⟩
  have hsplit : head ++ word = cs := by simpa [hparts] using splitLastWord_append cs
  have hnil : word = [] → cs = [] := fun h => splitLastWord_eq_nil (by simpa [hparts] using h)
  refine ⟨head, word, ?_⟩
  unfold pluralChars
  simp only [hparts]
  split
  · rename_i hkeep
    exact ⟨word, hsplit, hnil, hsplit.symm, .kept (by simpa [or_assoc] using hkeep)⟩
  · split
    · rename_i many hmany
      exact ⟨_, hsplit, hnil, rfl, .irregular hmany⟩
    · split
      · rename_i hy
        exact ⟨_, hsplit, hnil, List.append_assoc .., .ies hy⟩
      · split
        · exact ⟨_, hsplit, hnil, List.append_assoc .., .es⟩
        · exact ⟨_, hsplit, hnil, List.append_assoc .., .s⟩

/-- A name is put in the singular at its last word. -/
theorem singularChars_cases (cs : List Char) : ∃ head word one, head ++ word = cs ∧
    singularChars cs = head ++ one ∧ WordSingular word one := by
  obtain ⟨head, word, hparts⟩ : ∃ head word, splitLastWord cs = (head, word) := ⟨_, _, rfl⟩
  have hsplit : head ++ word = cs := by simpa [hparts] using splitLastWord_append cs
  refine ⟨head, word, ?_⟩
  unfold singularChars
  simp only [hparts]
  split
  · exact ⟨word, hsplit, hsplit.symm, .kept⟩
  · split
    · rename_i one hone
      exact ⟨_, hsplit, rfl, .irregular hone⟩
    · split
      · exact ⟨_, hsplit, List.append_assoc .., .y⟩
      · split
        · exact ⟨_, hsplit, rfl, .cut 1⟩
        · split
          · exact ⟨_, hsplit, rfl, .cut 2⟩
          · split
            · exact ⟨_, hsplit, rfl, .cut 1⟩
            · exact ⟨word, hsplit, hsplit.symm, .kept⟩

theorem mem_dropLast {n : Nat} {cs : List Char} {c : Char} (h : c ∈ dropLast n cs) : c ∈ cs :=
  List.mem_of_mem_take h

theorem WordPlural.nameChars {word many : List Char} (h : WordPlural word many)
    (hword : ∀ c ∈ word, isNameChar c = true) : ∀ c ∈ many, isNameChar c = true := by
  cases h with
  | kept => exact hword
  | irregular hmany =>
    exact fun c hc =>
      isNameChar_of_isAlphanum (matchCase_alphanum word (irregularPlurals_alphanum hmany) c hc)
  | ies =>
    exact List.forall_mem_append.mpr
      ⟨fun c hc => hword c (mem_dropLast hc), List.all_eq_true.mp (by decide)⟩
  | es => exact List.forall_mem_append.mpr ⟨hword, List.all_eq_true.mp (by decide)⟩
  | s => exact List.forall_mem_append.mpr ⟨hword, List.all_eq_true.mp (by decide)⟩

theorem WordSingular.nameChars {word one : List Char} (h : WordSingular word one)
    (hword : ∀ c ∈ word, isNameChar c = true) : ∀ c ∈ one, isNameChar c = true := by
  cases h with
  | kept => exact hword
  | irregular hone =>
    exact fun c hc =>
      isNameChar_of_isAlphanum (matchCase_alphanum word (irregularSingulars_alphanum hone) c hc)
  | y =>
    exact List.forall_mem_append.mpr
      ⟨fun c hc => hword c (mem_dropLast hc), List.all_eq_true.mp (by decide)⟩
  | cut n => exact fun c hc => hword c (mem_dropLast hc)

/-- Names stay names when characters are taken off and letters are put on. -/
theorem pluralChars_nameChars {cs : List Char} (h : ∀ c ∈ cs, isNameChar c = true) :
    ∀ c ∈ pluralChars cs, isNameChar c = true := by
  obtain ⟨head, word, many, rfl, -, he, hplural⟩ := pluralChars_cases cs
  obtain ⟨hhead, hword⟩ := List.forall_mem_append.mp h
  rw [he]
  exact List.forall_mem_append.mpr ⟨hhead, hplural.nameChars hword⟩

theorem singularChars_nameChars {cs : List Char} (h : ∀ c ∈ cs, isNameChar c = true) :
    ∀ c ∈ singularChars cs, isNameChar c = true := by
  obtain ⟨head, word, one, rfl, he, hsingular⟩ := singularChars_cases cs
  obtain ⟨hhead, hword⟩ := List.forall_mem_append.mp h
  rw [he]
  exact List.forall_mem_append.mpr ⟨hhead, hsingular.nameChars hword⟩

theorem nameChars_singular {s : String} (h : ∀ c ∈ s.toList, isNameChar c = true) :
    ∀ c ∈ (singular s).toList, isNameChar c = true := by
  rw [singular, String.toList_ofList]
  exact singularChars_nameChars h

/-- The plural of a name is that of its singular, whichever number the name is given in. -/
theorem nameChars_plural {s : String} (h : ∀ c ∈ s.toList, isNameChar c = true) :
    ∀ c ∈ (plural (singular s)).toList, isNameChar c = true := by
  rw [plural, String.toList_ofList]
  exact pluralChars_nameChars (nameChars_singular h)

/-! ## The last letter of a plural -/

/-- The letters that a plural can end in. -/
def pluralEndings : List Char := "aehnpst".toList

/-- A text ends as plurals do. No word that such a text must differ from does: no enum variable,
which ends in m, and no route segment of the generated modules. -/
def EndsPlural (cs : List Char) : Prop := ∀ c, cs.getLast? = some c → c.toLower ∈ pluralEndings

theorem EndsPlural.append {word : List Char} (head : List Char) (hne : word ≠ [])
    (h : EndsPlural word) : EndsPlural (head ++ word) := by
  intro c hc
  rw [List.getLast?_append, Option.or_eq_some_iff] at hc
  rcases hc with hc | ⟨hnone, -⟩
  · exact h c hc
  · exact absurd (List.getLast?_eq_none_iff.mp hnone) hne

theorem endsPlural_of_any {cs : List Char}
    (h : cs.getLast?.any (fun c => pluralEndings.contains c.toLower) = true) :
    cs ≠ [] ∧ EndsPlural cs := by
  cases hc : cs.getLast? with
  | none =>
    rw [hc] at h
    cases h
  | some c =>
    rw [hc] at h
    refine ⟨fun hnil => by simp [hnil] at hc, fun d hd => ?_⟩
    rw [hc] at hd
    exact Option.some.inj hd ▸ List.contains_iff_mem.mp h

theorem unchanged_last {key : String}
    (h : uncountable.contains key = true ∨ (irregularSingulars.lookup key).isSome = true) :
    EndsPlural key.toList := by
  have hall : (uncountable ++ irregularSingulars.map (·.1)).all (fun key =>
      key.toList.getLast?.any fun c => pluralEndings.contains c.toLower) = true := by decide
  have hmem : key ∈ uncountable ++ irregularSingulars.map (·.1) := by
    rcases h with h | h
    · exact List.mem_append_left _ (by simpa using h)
    · obtain ⟨one, hone⟩ := Option.isSome_iff_exists.mp h
      exact List.mem_append_right _ (List.mem_map_of_mem (mem_of_lookup hone))
  exact (endsPlural_of_any (List.all_eq_true.mp hall key hmem)).2

theorem matchCase_last (model : List Char) {key many : String}
    (h : irregularPlurals.lookup key = some many) :
    matchCase model many ≠ [] ∧ EndsPlural (matchCase model many) := by
  have hall : irregularPlurals.all (fun entry =>
      [entry.2.toList, capitalize entry.2.toList].all fun cs =>
        cs.getLast?.any fun c => pluralEndings.contains c.toLower) = true := by decide
  have hmem : matchCase model many ∈ [many.toList, capitalize many.toList] := by
    unfold matchCase
    split <;> simp
  exact endsPlural_of_any (List.all_eq_true.mp (List.all_eq_true.mp hall _ (mem_of_lookup h)) _ hmem)

theorem toLower_toLower {c : Char} (h : c.toNat < 128) : c.toLower.toLower = c.toLower :=
  ascii_forall (p := fun c => c.toLower.toLower = c.toLower) (by decide) h

/-- The last letter does not tell the tables' words from the same words with a capital. -/
theorem kept_last {word : List Char} (hword : ∀ c ∈ word, c.toNat < 128)
    (h : uncountable.contains (String.ofList (lower word)) = true ∨
      (irregularSingulars.lookup (String.ofList (lower word))).isSome = true) :
    EndsPlural word := by
  have hends := unchanged_last h
  rw [String.toList_ofList, lower_ascii hword] at hends
  intro c hc
  have hlast := hends c.toLower (by rw [List.getLast?_map, hc, Option.map_some])
  rwa [toLower_toLower (hword c (List.mem_of_getLast? hc))] at hlast

theorem endsPlural_ending (word : List Char) {ending : List Char}
    (h : ending.getLast?.any (fun c => pluralEndings.contains c.toLower) = true) :
    EndsPlural (word ++ ending) :=
  have hends := endsPlural_of_any h
  hends.2.append word hends.1

theorem WordPlural.last {word many : List Char} (h : WordPlural word many)
    (hword : ∀ c ∈ word, c.toNat < 128) : EndsPlural many ∧ (many = [] → word = []) := by
  cases h with
  | kept hkeep =>
    refine ⟨?_, id⟩
    rcases hkeep with hnil | hkeep
    · rw [lower_ascii hword, List.map_eq_nil_iff] at hnil
      simp [hnil, EndsPlural]
    · exact kept_last hword hkeep
  | irregular hmany =>
    obtain ⟨hne, hends⟩ := matchCase_last word hmany
    exact ⟨hends, fun hnil => absurd hnil hne⟩
  | ies => exact ⟨endsPlural_ending _ (by decide), by simp⟩
  | es => exact ⟨endsPlural_ending _ (by decide), by simp⟩
  | s => exact ⟨endsPlural_ending _ (by decide), by simp⟩

theorem pluralChars_last {cs : List Char} (h : ∀ c ∈ cs, isNameChar c = true) :
    EndsPlural (pluralChars cs) := by
  obtain ⟨head, word, many, rfl, hnil, he, hplural⟩ := pluralChars_cases cs
  obtain ⟨hends, hmany⟩ := hplural.last fun c hc =>
    isNameChar_ascii (h c (List.mem_append_right _ hc))
  rw [he]
  by_cases hne : many = []
  · obtain ⟨rfl, -⟩ := List.append_eq_nil_iff.mp (hnil (hmany hne))
    rwa [List.nil_append]
  · exact hends.append head hne

/-- The plural of a name ends as plurals do. -/
theorem plural_last {name : String} (h : ∀ c ∈ name.toList, isNameChar c = true) :
    EndsPlural (plural (singular name)).toList := by
  rw [plural, String.toList_ofList]
  exact pluralChars_last (nameChars_singular h)

end SchemaScaffold.Naming
