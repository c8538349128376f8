import SchemaScaffold.Proofs.Naming.Letters
import SchemaScaffold.Proofs.Text.Splitting

/-!
The inflection of a single word in small letters. Twenty-four words have forms of their own; every
other word is inflected by its ending, so here it stands read backwards, where its ending comes
first. A singular is stable under being made plural and singular again unless its plural looks like
the plural of another word (`fishe`, `mous`, a vowel before `ie`), or like no plural at all (`menu`
and `taxi`, since a word in `us` or `is` is taken for a singular); a word that still is a plural
itself is made singular a second time.
-/

namespace SchemaScaffold.Naming

open Text

/-- A word without a capital: small letters and digits. -/
def Small (w : List Char) : Prop := ∀ c ∈ w, isLowerOrDigit c = true

theorem isLowerOrDigit_alphanum {c : Char} (h : isLowerOrDigit c = true) : c.isAlphanum = true := by
  rcases Bool.or_eq_true_iff.mp h with h | h <;> simp [isAlphanum_eq, h]

theorem toLower_small {c : Char} (h : isLowerOrDigit c = true) : c.toLower = c :=
  alphanum_forall (p := fun c => isLowerOrDigit c = true → c.toLower = c) (by decide)
    (isLowerOrDigit_alphanum h) h

theorem isUpper_toUpper {c : Char} (h : c.isLower = true) : c.toUpper.isUpper = true :=
  alphanum_forall (p := fun c => c.isLower = true → c.toUpper.isUpper = true) (by decide)
    (isLowerOrDigit_alphanum (by simp [isLowerOrDigit, h])) h

theorem not_isUpper_small {c : Char} (h : isLowerOrDigit c = true) : c.isUpper = false :=
  alphanum_forall (p := fun c => isLowerOrDigit c = true → c.isUpper = false) (by decide)
    (isLowerOrDigit_alphanum h) h

theorem Small.lower {w : List Char} (h : Small w) : lower w = w := by
  rw [lower_ascii fun c hc => isAlphanum_ascii (isLowerOrDigit_alphanum (h c hc))]
  induction w with
  | nil => rfl
  | cons c w ih =>
    rw [List.map_cons, toLower_small (h c (by simp)), ih fun d hd => h d (List.mem_cons_of_mem _ hd)]

theorem Small.break_not_mem {w : List Char} (h : Small w) : '\n' ∉ w := fun hmem =>
  absurd (h _ hmem) (by decide)

theorem splitAtLastCapital_small {w : List Char} (h : Small w) : splitAtLastCapital w = none := by
  induction w with
  | nil => rfl
  | cons c w ih =>
    have hc : c.isUpper = false := not_isUpper_small (h c (by simp))
    rw [splitAtLastCapital, ih fun d hd => h d (List.mem_cons_of_mem _ hd)]
    simp [isLastCapital, hc]

theorem splitLastWord_small {w : List Char} (h : Small w) : splitLastWord w = ([], w) := by
  rw [splitLastWord, splitAtLastCapital_small h]
  rfl

/-- The words that the ending rules do not decide: the empty word, those without a plural, and the
irregular ones in both numbers. -/
def exceptions : List String :=
  "" :: uncountable ++ irregularPlurals.map (·.1) ++ irregularPlurals.map (·.2)

theorem mem_exceptions_iff (r : List Char) :
    String.ofList r.reverse ∈ exceptions ↔ r ∈ exceptions.map fun word => word.toList.reverse := by
  rw [List.mem_map]
  constructor
  · intro h
    exact ⟨_, h, by simp⟩
  · rintro ⟨word, hword, rfl⟩
    simpa using hword

/-! ## The ending rules -/

theorem endsWith_reverse (ending : String) (r : List Char) :
    endsWith ending r.reverse = ending.toList.reverse.isPrefixOf r := by
  simp [endsWith, List.isSuffixOf]

theorem dropLast_reverse (n : Nat) (r : List Char) : dropLast n r.reverse = (r.drop n).reverse := by
  rw [dropLast, List.length_reverse, List.take_reverse]
  by_cases h : n ≤ r.length
  · rw [Nat.sub_sub_self h]
  · rw [List.drop_of_length_le (by omega), List.drop_of_length_le (by omega)]

theorem lookup_eq_none {table : List (String × String)} {key : String}
    (h : key ∉ table.map (·.1)) : table.lookup key = none := by
  rw [List.lookup_eq_none_iff]
  intro entry hentry
  have hne : entry.1 ≠ key := fun he => h (he ▸ List.mem_map_of_mem hentry)
  simpa using hne.symm

/-- A word that the ending rules decide. -/
structure Regular (r : List Char) : Prop where
  small : Small r.reverse
  ruled : r ∉ exceptions.map fun word => word.toList.reverse

namespace Regular

variable {r : List Char}

theorem key (h : Regular r) : String.ofList r.reverse ∉ exceptions :=
  fun hmem => h.ruled ((mem_exceptions_iff r).mp hmem)

theorem countable (h : Regular r) : uncountable.contains (String.ofList r.reverse) = false := by
  have hmem : String.ofList r.reverse ∉ uncountable := fun hm => h.key (by simp [exceptions, hm])
  simpa using hmem

theorem ne_nil (h : Regular r) : r ≠ [] := by
  rintro rfl
  exact h.key (by decide)

theorem no_plural (h : Regular r) : irregularPlurals.lookup (String.ofList r.reverse) = none :=
  lookup_eq_none fun hm => h.key (by simp only [exceptions, List.mem_append, hm]; simp)

theorem no_singular (h : Regular r) : irregularSingulars.lookup (String.ofList r.reverse) = none := by
  refine lookup_eq_none fun hm => h.key ?_
  rw [irregularSingulars, List.map_map] at hm
  exact List.mem_append_right _ hm

theorem plural (h : Regular r) : pluralChars r.reverse =
    if endsInConsonantY r.reverse then ('s' :: 'e' :: 'i' :: r.tail).reverse
    else if takesEs r.reverse then ('s' :: 'e' :: r).reverse
    else ('s' :: r).reverse := by
  unfold pluralChars
  simp only [splitLastWord_small h.small, h.small.lower, h.no_plural, h.no_singular, h.countable,
    dropLast_reverse]
  rw [if_neg (by simp [h.ne_nil])]
  simp

theorem singular (h : Regular r) : singularChars r.reverse =
    if endsWith "ies" r.reverse && 3 < r.length then ('y' :: r.drop 3).reverse
    else if endsWith "ouses" r.reverse then (r.drop 1).reverse
    else if endsInEs r.reverse then (r.drop 2).reverse
    else if endsWith "s" r.reverse && !singularInS r.reverse then (r.drop 1).reverse
    else r.reverse := by
  unfold singularChars
  simp only [splitLastWord_small h.small, h.small.lower, h.no_plural, h.no_singular, h.countable,
    dropLast_reverse]
  rw [if_neg (by simp [h.ne_nil])]
  simp

end Regular

/-! ## Endings -/

theorem endsWith_reverse_iff {ending : String} {r : List Char} :
    endsWith ending r.reverse = true ↔ ∃ t, r = ending.toList.reverse ++ t := by
  rw [endsWith_reverse, List.isPrefixOf_iff_prefix]
  exact exists_congr fun t => eq_comm

theorem any_endsWith_iff {endings : List String} {r : List Char} :
    (endings.any (endsWith · r.reverse)) = true ↔
      ∃ ending ∈ endings, ∃ t, r = ending.toList.reverse ++ t := by
  simp only [List.any_eq_true, endsWith_reverse_iff]

theorem endsInConsonantY_iff {r : List Char} (h : Small r.reverse) :
    endsInConsonantY r.reverse = true ↔ ∃ c t, r = 'y' :: c :: t ∧ isVowel c = false := by
  unfold endsInConsonantY
  rw [chomp_eq h.break_not_mem, List.reverse_reverse]
  split
  · simp
  · rename_i hno
    refine iff_of_false (by simp) ?_
    rintro ⟨c, t, rfl, -⟩
    exact hno c t rfl

theorem endsInEs_iff {r : List Char} (h : Small r.reverse) : endsInEs r.reverse = true ↔
    ∃ ending ∈ ["sses", "xes", "zes", "ches", "shes", "uses"], ∃ t, r = ending.toList.reverse ++ t := by
  unfold endsInEs
  rw [chomp_eq h.break_not_mem]
  exact any_endsWith_iff

/-! ## Words that stray -/

/-- The endings of words that their plural does not lead back to. -/
def strayEndings : List String := ["u", "i", "aie", "eie", "iie", "oie", "uie"]

/-- Words whose numbers do not lead back to each other, told in the singular: those whose plural is
the regular one of another word, those whose plural is taken for a singular, and those that are
plurals still. -/
def strays (word : List Char) : Bool :=
  ["mous", "fishe"].contains (String.ofList word) || strayEndings.any (endsWith · word) ||
    (endsWith "s" word && !singularInS word && !uncountable.contains (String.ofList word))

/-- The plural of a word is the plural of both its numbers. -/
def Agrees (word : List Char) : Prop :=
  pluralChars (singularChars word) = pluralChars word ∧
    pluralChars (singularChars (pluralChars word)) = pluralChars word

instance (word : List Char) : Decidable (Agrees word) := inferInstanceAs (Decidable (_ ∧ _))

/-- The exceptions agree with themselves. -/
theorem exceptions_agree : ∀ word ∈ exceptions, Agrees word.toList ∧ strays word.toList = false := by
  decide +kernel


theorem exceptions_back : (exceptions.map fun word => word.toList.reverse) =
    ["", "tnempiuqe", "noitamrofni", "swen", "seires", "seiceps", "peehs", "hsif", "atad", "nosrep",
      "dlihc", "nam", "namow", "esuom", "esoog", "htoot", "toof", "elpoep", "nerdlihc", "nem",
      "nemow", "ecim", "eseeg", "hteet", "teef"].map String.toList := by
  decide +kernel

theorem agrees_of_exception {r : List Char} (h : r ∈ exceptions.map fun word => word.toList.reverse) :
    Agrees r.reverse := by
  obtain ⟨word, hword, rfl⟩ := List.mem_map.mp h
  simpa using (exceptions_agree word hword).1

theorem small_cons {c : Char} {r : List Char} (hc : isLowerOrDigit c = true)
    (h : Small r.reverse) : Small (c :: r).reverse := by
  intro d hd
  rcases List.mem_cons.mp (List.mem_reverse.mp hd) with rfl | hd
  · exact hc
  · exact h d (List.mem_reverse.mpr hd)

theorem small_of_cons {c : Char} {r : List Char} (h : Small (c :: r).reverse) : Small r.reverse :=
  fun d hd => h d (by simpa using .inl (List.mem_reverse.mp hd))


theorem ends_ies {r : List Char} : endsWith "ies" r.reverse = true ↔ ∃ t, r = 's' :: 'e' :: 'i' :: t :=
  endsWith_reverse_iff

theorem ends_ouses {r : List Char} :
    endsWith "ouses" r.reverse = true ↔ ∃ t, r = 's' :: 'e' :: 's' :: 'u' :: 'o' :: t :=
  endsWith_reverse_iff

theorem ends_s {r : List Char} : endsWith "s" r.reverse = true ↔ ∃ t, r = 's' :: t :=
  endsWith_reverse_iff

theorem singularInS_iff {r : List Char} : singularInS r.reverse = true ↔
    ∃ t, r = 's' :: 's' :: t ∨ r = 's' :: 'u' :: t ∨ r = 's' :: 'i' :: t := by
  rw [singularInS, any_endsWith_iff]
  constructor
  · rintro ⟨ending, hmem, t, rfl⟩
    simp only [List.mem_cons, List.not_mem_nil, or_false] at hmem
    rcases hmem with rfl | rfl | rfl
    · exact ⟨t, .inl rfl⟩
    · exact ⟨t, .inr (.inl rfl)⟩
    · exact ⟨t, .inr (.inr rfl)⟩
  · rintro ⟨t, rfl | rfl | rfl⟩
    · exact ⟨"ss", by simp, t, rfl⟩
    · exact ⟨"us", by simp, t, rfl⟩
    · exact ⟨"is", by simp, t, rfl⟩

variable {r : List Char}

/-- What the singular of a regular word can be: the rules in their order, and the word itself. -/
theorem Regular.singular_cases (h : Regular r) :
    (∃ c t, r = 's' :: 'e' :: 'i' :: c :: t ∧ singularChars r.reverse = ('y' :: c :: t).reverse) ∨
    (∃ t, r = 's' :: 'e' :: 's' :: 'u' :: 'o' :: t ∧
      singularChars r.reverse = ('e' :: 's' :: 'u' :: 'o' :: t).reverse) ∨
    (∃ p ∈ [['s', 's'], ['x'], ['z'], ['h', 'c'], ['h', 's'], ['s', 'u']], ∃ t,
      r = 's' :: 'e' :: (p ++ t) ∧ singularChars r.reverse = (p ++ t).reverse) ∨
    (∃ t, r = 's' :: t ∧ singularInS r.reverse = false ∧ singularChars r.reverse = t.reverse) ∨
    (singularChars r.reverse = r.reverse ∧ ((∀ t, r ≠ 's' :: t) ∨ singularInS r.reverse = true)) := by
  have hform := h.singular
  split at hform
  · rename_i hies
    obtain ⟨hends, hlong⟩ := Bool.and_eq_true_iff.mp hies
    obtain ⟨t, rfl⟩ := ends_ies.mp hends
    cases t with
    | nil => simp at hlong
    | cons c t => exact .inl ⟨c, t, rfl, hform⟩
  · split at hform
    · rename_i hous
      obtain ⟨t, rfl⟩ := ends_ouses.mp hous
      exact .inr (.inl ⟨t, rfl, hform⟩)
    · split at hform
      · rename_i hes
        obtain ⟨ending, hmem, t, rfl⟩ := (endsInEs_iff h.small).mp hes
        refine .inr (.inr (.inl ?_))
        simp only [List.mem_cons, List.not_mem_nil, or_false] at hmem
        rcases hmem with rfl | rfl | rfl | rfl | rfl | rfl
        · exact ⟨['s', 's'], by simp, t, rfl, hform⟩
        · exact ⟨['x'], by simp, t, rfl, hform⟩
        · exact ⟨['z'], by simp, t, rfl, hform⟩
        · exact ⟨['h', 'c'], by simp, t, rfl, hform⟩
        · exact ⟨['h', 's'], by simp, t, rfl, hform⟩
        · exact ⟨['s', 'u'], by simp, t, rfl, hform⟩
      · refine .inr (.inr (.inr ?_))
        split at hform
        · rename_i hcut
          obtain ⟨hends, hkeep⟩ := Bool.and_eq_true_iff.mp hcut
          obtain ⟨t, rfl⟩ := ends_s.mp hends
          exact .inl ⟨t, rfl, by simpa using hkeep, hform⟩
        · rename_i hkeep
          refine .inr ⟨hform, ?_⟩
          by_cases hends : endsWith "s" r.reverse = true
          · exact .inr (by simpa [hends] using hkeep)
          · exact .inl fun t ht => hends (ends_s.mpr ⟨t, ht⟩)

/-- What the plural of a regular word can be. -/
theorem Regular.plural_cases (h : Regular r) :
    (∃ c t, r = 'y' :: c :: t ∧ isVowel c = false ∧
      pluralChars r.reverse = ('s' :: 'e' :: 'i' :: c :: t).reverse) ∨
    (takesEs r.reverse = true ∧ pluralChars r.reverse = ('s' :: 'e' :: r).reverse) ∨
    (takesEs r.reverse = false ∧ (∀ c t, r = 'y' :: c :: t → isVowel c = true) ∧
      pluralChars r.reverse = ('s' :: r).reverse) := by
  have hform := h.plural
  split at hform
  · rename_i hy
    obtain ⟨c, t, rfl, hc⟩ := (endsInConsonantY_iff h.small).mp hy
    exact .inl ⟨c, t, rfl, hc, hform⟩
  · rename_i hy
    split at hform
    · exact .inr (.inl ⟨‹_›, hform⟩)
    · refine .inr (.inr ⟨by simpa using ‹¬ takesEs r.reverse = true›, fun c t hr => ?_, hform⟩)
      by_contra hc
      exact hy ((endsInConsonantY_iff h.small).mpr ⟨c, t, hr, by simpa using hc⟩)

theorem takesEs_iff : takesEs r.reverse = true ↔ ∃ t, r = 's' :: t ∨ r = 'x' :: t ∨ r = 'z' :: t ∨
    r = 'h' :: 'c' :: t ∨ r = 'h' :: 's' :: t := by
  rw [takesEs, any_endsWith_iff]
  constructor
  · rintro ⟨ending, hmem, t, rfl⟩
    simp only [List.mem_cons, List.not_mem_nil, or_false] at hmem
    refine ⟨t, ?_⟩
    rcases hmem with rfl | rfl | rfl | rfl | rfl <;> simp
  · rintro ⟨t, rfl | rfl | rfl | rfl | rfl⟩
    · exact ⟨"s", by simp, t, rfl⟩
    · exact ⟨"x", by simp, t, rfl⟩
    · exact ⟨"z", by simp, t, rfl⟩
    · exact ⟨"ch", by simp, t, rfl⟩
    · exact ⟨"sh", by simp, t, rfl⟩

theorem Regular.plural_y {c : Char} {t : List Char} (h : Regular ('y' :: c :: t))
    (hc : isVowel c = false) :
    pluralChars ('y' :: c :: t).reverse = ('s' :: 'e' :: 'i' :: c :: t).reverse := by
  rw [h.plural, if_pos ((endsInConsonantY_iff h.small).mpr ⟨c, t, rfl, hc⟩)]
  rfl

theorem Regular.plural_es (h : Regular r) (hes : takesEs r.reverse = true) :
    pluralChars r.reverse = ('s' :: 'e' :: r).reverse := by
  rw [h.plural, if_neg, if_pos hes]
  intro hy
  obtain ⟨c, t, rfl, -⟩ := (endsInConsonantY_iff h.small).mp hy
  obtain ⟨u, hu⟩ := takesEs_iff.mp hes
  simp at hu

theorem Regular.plural_s (h : Regular r) (hes : takesEs r.reverse = false)
    (hy : ∀ c t, r = 'y' :: c :: t → isVowel c = true) :
    pluralChars r.reverse = ('s' :: r).reverse := by
  rw [h.plural, if_neg, if_neg (by simp [hes])]
  intro hends
  obtain ⟨c, t, hr, hc⟩ := (endsInConsonantY_iff h.small).mp hends
  simp [hy c t hr] at hc

/-- Which regular words stray. -/
theorem strays_iff (h : Regular r) : strays r.reverse = true ↔
    r = "suom".toList ∨ r = "ehsif".toList ∨ (∃ t, r = 'u' :: t ∨ r = 'i' :: t) ∨
      (∃ c t, r = 'e' :: 'i' :: c :: t ∧ isVowel c = true) ∨
      ((∃ t, r = 's' :: t) ∧ singularInS r.reverse = false) := by
  have hkey : ∀ word : String, String.ofList r.reverse = word ↔ r = word.toList.reverse := by
    intro word
    constructor
    · rintro rfl
      simp
    · rintro rfl
      simp
  have hends : (strayEndings.any (endsWith · r.reverse)) = true ↔
      (∃ t, r = 'u' :: t ∨ r = 'i' :: t) ∨ ∃ c t, r = 'e' :: 'i' :: c :: t ∧ isVowel c = true := by
    rw [any_endsWith_iff]
    constructor
    · rintro ⟨ending, hmem, t, rfl⟩
      simp only [strayEndings, List.mem_cons, List.not_mem_nil, or_false] at hmem
      rcases hmem with rfl | rfl | rfl | rfl | rfl | rfl | rfl <;> simp [isVowel]
    · rintro (⟨t, rfl | rfl⟩ | ⟨c, t, rfl, hc⟩)
      · exact ⟨"u", by simp [strayEndings], t, rfl⟩
      · exact ⟨"i", by simp [strayEndings], t, rfl⟩
      · have hvowel : c = 'a' ∨ c = 'e' ∨ c = 'i' ∨ c = 'o' ∨ c = 'u' := by simpa [isVowel] using hc
        rcases hvowel with rfl | rfl | rfl | rfl | rfl
        · exact ⟨"aie", by simp [strayEndings], t, rfl⟩
        · exact ⟨"eie", by simp [strayEndings], t, rfl⟩
        · exact ⟨"iie", by simp [strayEndings], t, rfl⟩
        · exact ⟨"oie", by simp [strayEndings], t, rfl⟩
        · exact ⟨"uie", by simp [strayEndings], t, rfl⟩
  rw [strays]
  simp only [Bool.or_eq_true, hends, Bool.and_eq_true, h.countable, ends_s]
  simp [hkey, or_assoc]

theorem takesEs_eq_false (h : ∀ t, r ≠ 's' :: t ∧ r ≠ 'x' :: t ∧ r ≠ 'z' :: t ∧ r ≠ 'h' :: 'c' :: t ∧
    r ≠ 'h' :: 's' :: t) : takesEs r.reverse = false := by
  refine Bool.eq_false_iff.mpr fun hes => ?_
  obtain ⟨t, ht⟩ := takesEs_iff.mp hes
  have := h t
  simp_all

/-- A word whose `s` is part of it is its own singular. -/
theorem Regular.singular_kept (h : Regular r) (hkeep : singularInS r.reverse = true) :
    singularChars r.reverse = r.reverse := by
  obtain ⟨u, hu⟩ := singularInS_iff.mp hkeep
  rcases h.singular_cases with ⟨c, t, rfl, -⟩ | ⟨t, rfl, -⟩ | ⟨p, -, t, rfl, -⟩ | ⟨t, -, hend, -⟩ |
      ⟨hform, -⟩
  · simp at hu
  · simp at hu
  · simp at hu
  · rw [hkeep] at hend
    cases hend
  · exact hform

/-- A word that does not stray is its own singular. -/
theorem Regular.singular_self (h : Regular r) (hs : strays r.reverse = false) :
    singularChars r.reverse = r.reverse := by
  by_cases hkeep : singularInS r.reverse = true
  · exact h.singular_kept hkeep
  have hno : ∀ t, r ≠ 's' :: t := fun t ht => by
    rw [(strays_iff h).mpr (.inr (.inr (.inr (.inr ⟨⟨t, ht⟩, by simpa using hkeep⟩))))] at hs
    cases hs
  rcases h.singular_cases with ⟨c, t, rfl, -⟩ | ⟨t, rfl, -⟩ | ⟨p, -, t, rfl, -⟩ | ⟨t, rfl, -, -⟩ |
      ⟨hform, -⟩
  · exact absurd rfl (hno _)
  · exact absurd rfl (hno _)
  · exact absurd rfl (hno _)
  · exact absurd rfl (hno _)
  · exact hform

/-! ## Leading back -/

/-- The exceptions in `s` are words without a plural. -/
theorem exceptions_in_s : ∀ word ∈ exceptions, endsWith "s" word.toList = true →
    pluralChars (singularChars word.toList) = word.toList := by
  decide +kernel

theorem back_exception (h : 's' :: r ∈ exceptions.map fun word => word.toList.reverse) :
    pluralChars (singularChars ('s' :: r).reverse) = ('s' :: r).reverse := by
  obtain ⟨word, hword, he⟩ := List.mem_map.mp h
  have htext : ('s' :: r).reverse = word.toList := by rw [← he, List.reverse_reverse]
  rw [htext]
  exact exceptions_in_s word hword (htext ▸ ends_s.mpr ⟨r, rfl⟩)

/-- The plural in `es` leads back to itself. -/
theorem Regular.back_es (h : Regular r) (hs : strays r.reverse = false) (hes : takesEs r.reverse = true) :
    pluralChars (singularChars ('s' :: 'e' :: r).reverse) = ('s' :: 'e' :: r).reverse := by
  by_cases hp : 's' :: 'e' :: r ∈ exceptions.map fun word => word.toList.reverse
  · exact back_exception hp
  have hplural : Regular ('s' :: 'e' :: r) :=
    ⟨small_cons (by decide) (small_cons (by decide) h.small), hp⟩
  -- Where the singular ends in `e`, the plural takes a plain `s`.
  have hcut : pluralChars ('e' :: r).reverse = ('s' :: 'e' :: r).reverse := by
    refine Regular.plural_s ⟨small_cons (by decide) h.small, fun hmem => ?_⟩
      (takesEs_eq_false fun t => by simp) fun c t ht => by simp at ht
    simp [exceptions_back] at hmem
    rcases hmem with rfl | rfl | rfl | rfl | rfl
    · exact absurd hs (by decide)
    · exact absurd hs (by decide)
    · exact absurd hes (by decide)
    · exact absurd hes (by decide)
    · exact absurd hs (by decide)
  obtain ⟨t, ht⟩ := takesEs_iff.mp hes
  rcases hplural.singular_cases with ⟨c, u, he, -⟩ | ⟨u, he, hform⟩ | ⟨p, hp, u, he, hform⟩ |
      ⟨u, he, -, hform⟩ | ⟨-, hkeep | hkeep⟩
  · rw [List.cons.injEq, List.cons.injEq] at he
    simp [he.2.2] at ht
  · rw [List.cons.injEq, List.cons.injEq] at he
    rw [hform, ← he.2.2, hcut]
  · rw [List.cons.injEq, List.cons.injEq] at he
    rw [hform, ← he.2.2, h.plural_es hes]
  · rw [List.cons.injEq] at he
    rw [hform, ← he.2, hcut]
  · exact absurd rfl (hkeep _)
  · obtain ⟨u, hu⟩ := singularInS_iff.mp hkeep
    simp at hu

/-- The plural in `s` leads back to itself. -/
theorem Regular.back_s (h : Regular r) (hs : strays r.reverse = false)
    (hes : takesEs r.reverse = false) (hy : ∀ c t, r = 'y' :: c :: t → isVowel c = true) :
    pluralChars (singularChars ('s' :: r).reverse) = ('s' :: r).reverse := by
  by_cases hp : 's' :: r ∈ exceptions.map fun word => word.toList.reverse
  · exact back_exception hp
  have hplural : Regular ('s' :: r) := ⟨small_cons (by decide) h.small, hp⟩
  have hown := h.plural_s hes hy
  have hsteady : ¬ _ := fun hstray => Bool.false_ne_true (hs.symm.trans ((strays_iff h).mpr hstray))
  rcases hplural.singular_cases with ⟨c, u, he, hform⟩ | ⟨u, he, hform⟩ | ⟨p, hend, u, he, hform⟩ |
      ⟨u, he, -, hform⟩ | ⟨-, hkeep | hkeep⟩
  · rw [List.cons.injEq] at he
    obtain rfl := he.2
    have hc : isVowel c = false :=
      Bool.eq_false_iff.mpr fun hc => hsteady (.inr (.inr (.inr (.inl ⟨c, u, rfl, hc⟩))))
    have hsmall : Small ('y' :: c :: u).reverse := 
      small_cons (by decide) (small_of_cons (small_of_cons h.small))
    rw [hform]
    exact Regular.plural_y ⟨hsmall, by simp [exceptions_back]⟩ hc
  · rw [List.cons.injEq] at he
    rw [hform, ← he.2, hown]
  · rw [List.cons.injEq] at he
    obtain rfl := he.2
    have hes : takesEs (p ++ u).reverse = true := by
      rw [takesEs_iff]
      simp only [List.mem_cons, List.not_mem_nil, or_false] at hend
      rcases hend with rfl | rfl | rfl | rfl | rfl | rfl <;> simp
    have hruled : p ++ u ∉ exceptions.map fun word => word.toList.reverse := by
      intro hmem
      rw [exceptions_back] at hmem
      simp only [List.mem_cons, List.not_mem_nil, or_false] at hend
      rcases hend with rfl | rfl | rfl | rfl | rfl | rfl <;> simp at hmem
      exact hsteady (.inr (.inl (by simp [hmem])))
    rw [hform, Regular.plural_es ⟨small_of_cons h.small, hruled⟩ hes]
  · rw [List.cons.injEq] at he
    rw [hform, ← he.2, hown]
  · exact absurd rfl (hkeep _)
  · obtain ⟨u, hu⟩ := singularInS_iff.mp hkeep
    simp only [List.cons.injEq, true_and] at hu
    rcases hu with rfl | rfl | rfl
    · rw [takesEs_iff.mpr ⟨u, .inl rfl⟩] at hes
      cases hes
    · exact absurd (.inr (.inr (.inl ⟨u, .inl rfl⟩))) hsteady
    · exact absurd (.inr (.inr (.inl ⟨u, .inr rfl⟩))) hsteady

/-- The plural in `ies` leads back to itself. -/
theorem Regular.back_y {c : Char} {t : List Char} (h : Regular ('y' :: c :: t))
    (hc : isVowel c = false) :
    pluralChars (singularChars ('s' :: 'e' :: 'i' :: c :: t).reverse) =
      ('s' :: 'e' :: 'i' :: c :: t).reverse := by
  by_cases hp : 's' :: 'e' :: 'i' :: c :: t ∈ exceptions.map fun word => word.toList.reverse
  · exact back_exception hp
  have hplural : Regular ('s' :: 'e' :: 'i' :: c :: t) :=
    ⟨small_cons (by decide) (small_cons (by decide) (small_cons (by decide) (small_of_cons h.small))), hp⟩
  have hends : endsWith "ies" ('s' :: 'e' :: 'i' :: c :: t).reverse = true := ends_ies.mpr ⟨_, rfl⟩
  rw [hplural.singular, if_pos (by rw [hends]; simp)]
  exact h.plural_y hc

/-! ## What inflection keeps -/

variable {word : List Char}

/-- A form of a word: in small letters, and with the letter that the word starts with. -/
def IsForm (word form : List Char) : Prop := Small form ∧ form.head? = word.head?

instance (word form : List Char) : Decidable (IsForm word form) :=
  @instDecidableAnd _ _ (List.decidableBAll _ form) inferInstance

theorem exceptions_forms : ∀ word ∈ exceptions,
    IsForm word.toList (pluralChars word.toList) ∧ IsForm word.toList (singularChars word.toList) := by
  decide +kernel

/-- An exception's plural has two letters or more, and in `s` at most two more than the word. -/
theorem exceptions_lengths : ∀ word ∈ exceptions,
    (word.toList = [] ∨ 2 ≤ (pluralChars word.toList).length) ∧
      (endsWith "s" (pluralChars word.toList) = true →
        (pluralChars word.toList).length ≤ word.toList.length + 2) := by
  decide +kernel

theorem isForm_plural (h : Small word) : IsForm word (pluralChars word) := by
  obtain ⟨r, rfl⟩ : ∃ r : List Char, r.reverse = word := ⟨word.reverse, List.reverse_reverse word⟩
  by_cases hr : r ∈ exceptions.map fun word => word.toList.reverse
  · obtain ⟨word, hword, rfl⟩ := List.mem_map.mp hr
    rw [List.reverse_reverse]
    exact (exceptions_forms word hword).1
  have hreg : Regular r := ⟨h, hr⟩
  obtain ⟨c, t, rfl⟩ := List.exists_cons_of_ne_nil hreg.ne_nil
  rcases hreg.plural_cases with ⟨d, u, he, -, hform⟩ | ⟨-, hform⟩ | ⟨-, -, hform⟩
  · obtain ⟨rfl, rfl⟩ := List.cons.inj he
    rw [hform]
    refine ⟨?_, by simp⟩
    exact small_cons (by decide) (small_cons (by decide) (small_cons (by decide) (small_of_cons h)))
  · rw [hform]
    exact ⟨small_cons (by decide) (small_cons (by decide) h), by simp⟩
  · rw [hform]
    exact ⟨small_cons (by decide) h, by simp⟩

theorem isForm_singular (h : Small word) (hne : singularChars word ≠ []) :
    IsForm word (singularChars word) := by
  obtain ⟨r, rfl⟩ : ∃ r : List Char, r.reverse = word := ⟨word.reverse, List.reverse_reverse word⟩
  by_cases hr : r ∈ exceptions.map fun word => word.toList.reverse
  · obtain ⟨word, hword, rfl⟩ := List.mem_map.mp hr
    rw [List.reverse_reverse]
    exact (exceptions_forms word hword).2
  have hreg : Regular r := ⟨h, hr⟩
  rcases hreg.singular_cases with ⟨c, t, rfl, hform⟩ | ⟨t, rfl, hform⟩ | ⟨p, hp, t, rfl, hform⟩ |
      ⟨t, rfl, -, hform⟩ | ⟨hform, -⟩
  · rw [hform]
    refine ⟨?_, by simp⟩
    exact small_cons (by decide) (small_of_cons (small_of_cons (small_of_cons h)))
  · rw [hform]
    exact ⟨small_of_cons h, by simp⟩
  · rw [hform]
    refine ⟨small_of_cons (small_of_cons h), ?_⟩
    have hp : p ≠ [] := by
      rintro rfl
      simp at hp
    obtain ⟨c, p, rfl⟩ := List.exists_cons_of_ne_nil hp
    simp
  · rw [hform] at hne ⊢
    refine ⟨small_of_cons h, ?_⟩
    obtain ⟨c, t, rfl⟩ := List.exists_cons_of_ne_nil fun hnil : t = [] => hne (by simp [hnil])
    simp
  · rw [hform]
    exact ⟨h, rfl⟩

theorem plural_eq_nil (h : Small word) (hnil : pluralChars word = []) : word = [] := by
  have hhead := (isForm_plural h).2
  rw [hnil] at hhead
  exact List.head?_eq_none_iff.mp hhead.symm

theorem length_plural_two (h : Small word) (hne : word ≠ []) : 2 ≤ (pluralChars word).length := by
  obtain ⟨r, rfl⟩ : ∃ r : List Char, r.reverse = word := ⟨word.reverse, List.reverse_reverse word⟩
  by_cases hr : r ∈ exceptions.map fun word => word.toList.reverse
  · obtain ⟨word, hword, rfl⟩ := List.mem_map.mp hr
    rw [List.reverse_reverse] at hne ⊢
    exact (exceptions_lengths word hword).1.resolve_left hne
  have hlength : 1 ≤ r.length := by
    rw [← List.length_reverse]
    exact List.length_pos_iff.mpr hne
  rcases (Regular.mk h hr).plural_cases with ⟨c, t, rfl, -, hform⟩ | ⟨-, hform⟩ | ⟨-, -, hform⟩
  · rw [hform]
    simp
  · rw [hform]
    simp
  · rw [hform, List.length_reverse, List.length_cons]
    omega

theorem singular_eq_nil (h : Small word) (hnil : singularChars word = []) :
    word = [] ∨ word = ['s'] := by
  obtain ⟨r, rfl⟩ : ∃ r : List Char, r.reverse = word := ⟨word.reverse, List.reverse_reverse word⟩
  by_cases hr : r ∈ exceptions.map fun word => word.toList.reverse
  · obtain ⟨word, hword, rfl⟩ := List.mem_map.mp hr
    rw [List.reverse_reverse] at hnil ⊢
    have hhead := (exceptions_forms word hword).2.2
    rw [hnil] at hhead
    exact .inl (List.head?_eq_none_iff.mp hhead.symm)
  rcases (Regular.mk h hr).singular_cases with ⟨c, t, rfl, hform⟩ | ⟨t, rfl, hform⟩ |
      ⟨p, hp, t, rfl, hform⟩ | ⟨t, rfl, -, hform⟩ | ⟨hform, -⟩
  · rw [hform] at hnil
    simp at hnil
  · rw [hform] at hnil
    simp at hnil
  · have hp : p ≠ [] := by
      rintro rfl
      simp at hp
    rw [hform] at hnil
    simp [hp] at hnil
  · rw [hform] at hnil
    exact .inr (by simpa using hnil)
  · exact .inl (hform ▸ hnil)

/-! ## Agreement -/

theorem agrees_of_steady (hsmall : Small r.reverse) (hs : strays r.reverse = false) :
    Agrees r.reverse := by
  by_cases hr : r ∈ exceptions.map fun word => word.toList.reverse
  · exact agrees_of_exception hr
  have h : Regular r := ⟨hsmall, hr⟩
  refine ⟨by rw [h.singular_self hs], ?_⟩
  rcases h.plural_cases with ⟨c, t, rfl, hc, hform⟩ | ⟨hes, hform⟩ | ⟨hes, hy, hform⟩
  · rw [hform, h.back_y hc]
  · rw [hform, h.back_es hs hes]
  · rw [hform, h.back_s hs hes hy]

/-- A plural in `s` is at most two letters longer than the word. -/
theorem length_plural (hsmall : Small r.reverse) {t : List Char}
    (h : pluralChars r.reverse = ('s' :: t).reverse) : t.length ≤ r.length + 1 := by
  have hlength := congrArg List.length h
  by_cases hr : r ∈ exceptions.map fun word => word.toList.reverse
  · obtain ⟨word, hword, rfl⟩ := List.mem_map.mp hr
    rw [List.reverse_reverse] at h
    have := (exceptions_lengths word hword).2 (h ▸ ends_s.mpr ⟨t, rfl⟩)
    rw [h] at this
    simpa using this
  · rcases (Regular.mk hsmall hr).plural_cases with ⟨c, u, rfl, -, hform⟩ | ⟨-, hform⟩ | ⟨-, -, hform⟩ <;>
    · rw [hform] at hlength
      simp at hlength
      simp
      omega

/-- A plural that is taken for a singular gets another plural. -/
theorem Regular.plural_kept (h : Regular ('s' :: r)) (hkeep : singularInS ('s' :: r).reverse = true) :
    pluralChars (singularChars ('s' :: r).reverse) = ('s' :: 'e' :: 's' :: r).reverse := by
  rw [h.singular_kept hkeep, h.plural_es (takesEs_iff.mpr ⟨r, .inl rfl⟩)]

/-- The singular of a word whose `s` is taken off. -/
theorem Regular.singular_shorter {t : List Char} (h : Regular ('s' :: t))
    (hend : singularInS ('s' :: t).reverse = false) :
    ∃ x : List Char, singularChars ('s' :: t).reverse = x.reverse ∧ Small x.reverse ∧ x.length ≤ t.length := by
  rcases h.singular_cases with ⟨c, u, he, hform⟩ | ⟨u, he, hform⟩ | ⟨p, -, u, he, hform⟩ |
      ⟨u, he, -, hform⟩ | ⟨-, hkeep | hkeep⟩
  · rw [List.cons.injEq] at he
    obtain rfl := he.2
    refine ⟨_, hform, ?_, by simp⟩
    exact small_cons (by decide) (small_of_cons (small_of_cons (small_of_cons h.small)))
  · rw [List.cons.injEq] at he
    obtain rfl := he.2
    exact ⟨_, hform, small_of_cons h.small, Nat.le_refl _⟩
  · rw [List.cons.injEq] at he
    obtain rfl := he.2
    exact ⟨_, hform, small_of_cons (small_of_cons h.small), by simp⟩
  · rw [List.cons.injEq] at he
    obtain rfl := he.2
    exact ⟨_, hform, small_of_cons h.small, Nat.le_refl _⟩
  · exact absurd rfl (hkeep t)
  · rw [hkeep] at hend
    cases hend

theorem not_agrees_of_strays (hsmall : Small r.reverse) (hs : strays r.reverse = true) :
    ¬ Agrees r.reverse := by
  by_cases hr : r ∈ exceptions.map fun word => word.toList.reverse
  · obtain ⟨word, hword, rfl⟩ := List.mem_map.mp hr
    rw [List.reverse_reverse, (exceptions_agree word hword).2] at hs
    cases hs
  have h : Regular r := ⟨hsmall, hr⟩
  rintro ⟨hone, hmany⟩
  have hkept : takesEs r.reverse = false → (∀ c t, r = 'y' :: c :: t → isVowel c = true) →
      's' :: r ∉ (exceptions.map fun word => word.toList.reverse) →
      singularInS ('s' :: r).reverse = true → False := by
    intro hes hy hruled hkeep
    rw [h.plural_s hes hy, Regular.plural_kept ⟨small_cons (by decide) hsmall, hruled⟩ hkeep] at hmany
    simp at hmany
  rcases (strays_iff h).mp hs with rfl | rfl | ⟨t, rfl | rfl⟩ | ⟨c, t, rfl, hc⟩ | ⟨⟨t, rfl⟩, hend⟩
  · exact absurd hmany (by decide +kernel)
  · exact absurd hmany (by decide +kernel)
  · exact hkept (takesEs_eq_false (by simp)) (by simp) (by simp [exceptions_back])
      (singularInS_iff.mpr ⟨t, by simp⟩)
  · exact hkept (takesEs_eq_false (by simp)) (by simp) (by simp [exceptions_back])
      (singularInS_iff.mpr ⟨t, by simp⟩)
  · have hplural : Regular ('s' :: 'e' :: 'i' :: c :: t) := by
      refine ⟨small_cons (by decide) hsmall, fun hmem => ?_⟩
      simp [exceptions_back] at hmem
      rcases hmem with ⟨rfl, -⟩ | ⟨rfl, -⟩ <;> exact absurd hc (by decide)
    have hsingular : Regular ('y' :: c :: t) :=
      ⟨small_cons (by decide) (small_of_cons (small_of_cons hsmall)), by simp [exceptions_back]⟩
    have hends : endsWith "ies" ('s' :: 'e' :: 'i' :: c :: t).reverse = true := ends_ies.mpr ⟨_, rfl⟩
    rw [h.plural_s (takesEs_eq_false (by simp)) (by simp), hplural.singular,
      if_pos (by rw [hends]; simp)] at hmany
    have hback := hsingular.plural_s (takesEs_eq_false (by simp)) (by simp [hc])
    simp only [List.drop_succ_cons, List.drop_zero, hback] at hmany
    simp at hmany
  · obtain ⟨x, hx, hsmallx, hlength⟩ := h.singular_shorter hend
    rw [h.plural_es (takesEs_iff.mpr ⟨t, .inl rfl⟩), hx] at hone
    have := length_plural hsmallx hone
    simp at this
    omega

end SchemaScaffold.Naming
