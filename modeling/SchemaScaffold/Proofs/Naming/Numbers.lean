import SchemaScaffold.Proofs.Field.Grammar
import SchemaScaffold.Proofs.Naming.Endings
import SchemaScaffold.Proofs.Naming.Routes

/-!
Both numbers of a name. Inflection only reads and only changes the last word of a name, so the names
of a model, given in the singular or in the plural, lead to one table as far as the forms of that
word lead back to each other. The converse holds too, since a table variable tells the letters of
the plural it was spelled from.
-/

namespace SchemaScaffold.Naming

open Text

/-! ## The last word of a name -/

/-- A word as it is written last in a name: in small letters, or with a capital at its start. -/
def written (capital : Bool) (word : List Char) : List Char :=
  if capital then capitalize word else word

/-- A name cut before its last word. A capital starts that word; without one the word is the name. -/
structure Parted (head : List Char) (capital : Bool) (word : List Char) : Prop where
  small : Small word
  letter : capital = true → word.head?.any Char.isLower = true
  lone : capital = false → head = []

variable {head word : List Char} {capital : Bool}

theorem written_append {a : List Char} (ha : a ≠ []) (ha' : Small a) (b : List Char) :
    written capital (a ++ b) = written capital a ++ b := by
  cases capital with
  | false => rfl
  | true =>
    cases a with
    | nil => exact absurd rfl ha
    | cons c a =>
      have hc := isAlphanum_ascii (isLowerOrDigit_alphanum (ha' c (by simp)))
      simp only [written, if_true, List.cons_append, capitalize_cons _ hc]

theorem length_written (h : Small word) : (written capital word).length = word.length := by
  cases capital with
  | false => rfl
  | true =>
    cases word with
    | nil => rfl
    | cons c word =>
      have hc := isAlphanum_ascii (isLowerOrDigit_alphanum (h c (by simp)))
      simp only [written, if_true, capitalize_cons _ hc, List.length_cons]

theorem dropLast_written (h : Small word) (n : Nat) :
    dropLast n (written capital word) = written capital (dropLast n word) := by
  rw [dropLast, length_written h, dropLast]
  cases capital with
  | false => rfl
  | true =>
    cases word with
    | nil => simp [written, capitalize]
    | cons c word =>
      have hc := isAlphanum_ascii (isLowerOrDigit_alphanum (h c (by simp)))
      simp only [written, if_true, capitalize_cons _ hc]
      cases (c :: word).length - n with
      | zero => rfl
      | succ k => simp only [List.take_succ_cons, capitalize_cons _ hc]

theorem lower_written (h : Small word) : lower (written capital word) = word := by
  cases capital with
  | false => exact h.lower
  | true =>
    cases word with
    | nil => rfl
    | cons c word =>
      have hc := isLowerOrDigit_alphanum (h c (by simp))
      have hchars : ∀ d ∈ c.toUpper :: word, d.toNat < 128 := by
        intro d hd
        rcases List.mem_cons.mp hd with rfl | hd
        · exact isAlphanum_ascii (alphanum_forall (p := fun c => c.toUpper.isAlphanum) (by decide) hc)
        · exact isAlphanum_ascii (isLowerOrDigit_alphanum (h d (List.mem_cons_of_mem _ hd)))
      have hback := alphanum_forall (p := fun c => isLowerOrDigit c = true → c.toUpper.toLower = c)
        (by decide) hc (h c (by simp))
      have hrest := Small.lower (w := word) fun d hd => h d (List.mem_cons_of_mem _ hd)
      rw [lower_ascii fun d hd => isAlphanum_ascii
        (isLowerOrDigit_alphanum (h d (List.mem_cons_of_mem _ hd)))] at hrest
      simp only [written, if_true, capitalize_cons _ (isAlphanum_ascii hc)]
      rw [lower_ascii hchars, List.map_cons, hback, hrest]

theorem matchCase_written (h : Parted head capital word) (hne : word ≠ []) (form : String) :
    matchCase (written capital word) form = written capital form.toList := by
  cases word with
  | nil => exact absurd rfl hne
  | cons c word =>
    have hc := h.small c (by simp)
    cases capital with
    | false => simp [matchCase, written, not_isUpper_small hc]
    | true =>
      have hletter : c.isLower = true := by simpa using h.letter rfl
      have hupper := isUpper_toUpper hletter
      simp [matchCase, written, capitalize_cons _ (isAlphanum_ascii (isLowerOrDigit_alphanum hc)),
        hupper]

theorem Parted.split (h : Parted head capital word) :
    splitLastWord (head ++ written capital word) = (head, written capital word) := by
  cases capital with
  | false =>
    rw [h.lone rfl]
    exact splitLastWord_small h.small
  | true =>
    cases word with
    | nil => simpa using h.letter rfl
    | cons c word =>
      have hc := h.small c (by simp)
      have hletter : c.isLower = true := by simpa using h.letter rfl
      have hupper := isUpper_toUpper hletter
      have hrest : Small word := fun d hd => h.small d (List.mem_cons_of_mem _ hd)
      have hlast : isLastCapital c.toUpper word = true := by
        simp only [isLastCapital, hupper, chomp_eq hrest.break_not_mem, Bool.true_and]
        exact List.all_eq_true.mpr hrest
      have hcut : splitAtLastCapital (head ++ c.toUpper :: word) = some (head, c.toUpper :: word) := by
        clear h
        induction head with
        | nil => rw [List.nil_append, splitAtLastCapital, splitAtLastCapital_small hrest]; simp [hlast]
        | cons d head ih => rw [List.cons_append, splitAtLastCapital, ih]
      simp only [written, if_true, capitalize_cons _ (isAlphanum_ascii (isLowerOrDigit_alphanum hc))]
      rw [splitLastWord, hcut]
      rfl

/-- Every name of letters and digits is cut before its last word. -/
theorem exists_parted {cs : List Char} (h : ∀ c ∈ cs, c.isAlphanum = true) :
    ∃ head capital word, Parted head capital word ∧ cs = head ++ written capital word := by
  induction cs with
  | nil => exact ⟨[], false, [], ⟨by simp [Small], by simp, by simp⟩, rfl⟩
  | cons c cs ih =>
    obtain ⟨head, capital, word, hparted, hcs⟩ := ih fun d hd => h d (List.mem_cons_of_mem _ hd)
    cases capital with
    | true => exact ⟨c :: head, true, word, ⟨hparted.small, hparted.letter, by simp⟩, by rw [hcs]; rfl⟩
    | false =>
      obtain rfl := hparted.lone rfl
      obtain rfl : cs = word := hcs
      have hc := h c (by simp)
      by_cases hupper : c.isUpper = true
      · obtain ⟨hlower, hback⟩ := alphanum_forall (p := fun c => c.isUpper = true →
          c.toLower.isLower = true ∧ c.toLower.toUpper = c) (by decide) hc hupper
        have hsmall : Small (c.toLower :: cs) := by
          intro d hd
          rcases List.mem_cons.mp hd with rfl | hd
          · simp [isLowerOrDigit, hlower]
          · exact hparted.small d hd
        refine ⟨[], true, c.toLower :: cs, ⟨hsmall, by simp [hlower], by simp⟩, ?_⟩
        have hascii := isAlphanum_ascii (isLowerOrDigit_alphanum (hsmall c.toLower (by simp)))
        simp [written, capitalize_cons _ hascii, hback]
      · have hc' : isLowerOrDigit c = true := by
          have := hc
          rw [isAlphanum_eq] at this
          simpa [hupper, isLowerOrDigit] using this
        exact ⟨[], false, c :: cs, ⟨fun d hd => by
          rcases List.mem_cons.mp hd with rfl | hd
          · exact hc'
          · exact hparted.small d hd, by simp, by simp⟩, rfl⟩

/-! ## Inflection of the last word -/

theorem matchCase_small (h : Small word) (form : String) : matchCase word form = form.toList := by
  cases word with
  | nil => rfl
  | cons c word => simp [matchCase, not_isUpper_small (h c (by simp))]

theorem dropLast_append (h : Small word) {n : Nat} (hn : n < word.length) (ending : List Char) :
    dropLast n (written capital word) ++ ending = written capital (dropLast n word ++ ending) := by
  have hne : dropLast n word ≠ [] := by
    intro hnil
    have := congrArg List.length hnil
    simp [dropLast] at this
    omega
  rw [dropLast_written h, written_append hne fun c hc => h c (List.mem_of_mem_take hc)]

/-- A plural is the plural of the last word. -/
theorem Parted.plural (h : Parted head capital word) :
    pluralChars (head ++ written capital word) = head ++ written capital (pluralChars word) := by
  unfold pluralChars
  simp only [h.split, splitLastWord_small h.small, lower_written h.small, h.small.lower]
  by_cases hkeep : (word.isEmpty || uncountable.contains (String.ofList word) ||
      (irregularSingulars.lookup (String.ofList word)).isSome) = true
  · rw [if_pos hkeep, if_pos hkeep]
  rw [if_neg hkeep, if_neg hkeep]
  have hne : word ≠ [] := by
    rintro rfl
    exact hkeep rfl
  split
  · rw [matchCase_written h hne, List.nil_append, matchCase_small h.small]
  · split
    · rename_i hy
      rw [← List.reverse_reverse word] at hy h
      obtain ⟨c, t, hr, -⟩ := (endsInConsonantY_iff h.small).mp hy
      rw [List.reverse_reverse] at h
      have hlong : 1 < word.length := by
        have := congrArg List.length hr
        simp at this
        omega
      rw [List.nil_append, List.append_assoc, dropLast_append h.small hlong]
    · split
      · rw [List.nil_append, written_append hne h.small, List.append_assoc]
      · rw [List.nil_append, written_append hne h.small, List.append_assoc]

/-- A singular is the singular of the last word. -/
theorem Parted.singular (h : Parted head capital word) :
    singularChars (head ++ written capital word) = head ++ written capital (singularChars word) := by
  unfold singularChars
  simp only [h.split, splitLastWord_small h.small, lower_written h.small, h.small.lower]
  by_cases hkeep : (word.isEmpty || uncountable.contains (String.ofList word) ||
      (irregularPlurals.lookup (String.ofList word)).isSome) = true
  · rw [if_pos hkeep, if_pos hkeep]
  rw [if_neg hkeep, if_neg hkeep]
  have hne : word ≠ [] := by
    rintro rfl
    exact hkeep rfl
  split
  · rw [matchCase_written h hne, List.nil_append, matchCase_small h.small]
  · split
    · rename_i hies
      have hlong : 3 < word.length := by simpa using (Bool.and_eq_true_iff.mp hies).2
      rw [List.nil_append, List.append_assoc, dropLast_append h.small hlong]
    · split
      · rw [List.nil_append, dropLast_written h.small]
      · split
        · rw [List.nil_append, dropLast_written h.small]
        · split
          · rw [List.nil_append, dropLast_written h.small]
          · rfl

theorem Parted.form {form : List Char} (h : Parted head capital word) (hform : IsForm word form) :
    Parted head capital form :=
  ⟨hform.1, fun hc => hform.2 ▸ h.letter hc, h.lone⟩

theorem Parted.alphanum (h : Parted head capital word) (hhead : ∀ c ∈ head, c.isAlphanum = true) :
    ∀ c ∈ head ++ written capital word, c.isAlphanum = true := by
  have hword : ∀ c ∈ word, c.isAlphanum = true := fun c hc => isLowerOrDigit_alphanum (h.small c hc)
  refine List.forall_mem_append.mpr ⟨hhead, ?_⟩
  cases capital with
  | false => exact hword
  | true => exact capitalize_alphanum hword

/-! ## Both numbers of a name -/

/-- The letters and digits of a name, whatever their case. -/
def letters (cs : List Char) : List Char := cs.map Char.toLower

theorem letters_written (h : Small word) :
    letters (head ++ written capital word) = letters head ++ word := by
  have hascii : ∀ c ∈ written capital word, c.toNat < 128 := by
    intro c hc
    have hword : ∀ c ∈ word, c.isAlphanum = true := fun c hc => isLowerOrDigit_alphanum (h c hc)
    cases capital with
    | false => exact isAlphanum_ascii (hword c hc)
    | true => exact isAlphanum_ascii (capitalize_alphanum hword c hc)
  rw [letters, List.map_append, ← lower_ascii hascii, lower_written h, letters]

theorem Parted.agrees (h : Parted head capital word) (hsteady : strays word = false) :
    Agrees (head ++ written capital word) := by
  obtain ⟨hone, hmany⟩ : Agrees word := by
    have hsmall := h.small
    rw [← List.reverse_reverse word] at hsmall hsteady ⊢
    exact agrees_of_steady hsmall hsteady
  have hplural := h.form (isForm_plural h.small)
  constructor
  · by_cases hnil : singularChars word = []
    · have hword : word = [] := plural_eq_nil h.small (hone ▸ by rw [hnil]; decide)
      subst hword
      rw [h.singular]
      rfl
    · rw [h.singular, (h.form (isForm_singular h.small hnil)).plural, hone, h.plural]
  · by_cases hnil : singularChars (pluralChars word) = []
    · have hword : word = [] := by
        refine plural_eq_nil h.small ?_
        rw [← hmany, hnil]
        decide
      subst hword
      have hp : pluralChars [] = [] := by decide
      have hs : singularChars [] = [] := by decide
      rw [h.plural, hp, h.singular, hs, h.plural, hp]
    · rw [h.plural, hplural.singular, (hplural.form (isForm_singular hplural.small hnil)).plural, hmany]

theorem Parted.steady (h : Parted head capital word) (hhead : ∀ c ∈ head, c.isAlphanum = true)
    (hone : letters (pluralChars (singularChars (head ++ written capital word))) =
      letters (pluralChars (head ++ written capital word)))
    (hmany : letters (pluralChars (singularChars (pluralChars (head ++ written capital word)))) =
      letters (pluralChars (head ++ written capital word))) : strays word = false := by
  by_contra hs
  have hs : strays word = true := by simpa using hs
  have hne : word ≠ [] := by
    rintro rfl
    exact absurd hs (by decide)
  have hplural := h.form (isForm_plural h.small)
  have hback : singularChars (pluralChars word) ≠ [] := by
    intro hnil
    have hlength := length_plural_two h.small hne
    rcases singular_eq_nil hplural.small hnil with hw | hw <;> simp [hw] at hlength
  rw [h.plural, letters_written hplural.small] at hone hmany
  rw [hplural.singular, (hplural.form (isForm_singular hplural.small hback)).plural,
    letters_written (isForm_plural (isForm_singular hplural.small hback).1).1] at hmany
  rw [h.singular] at hone
  by_cases hnil : singularChars word = []
  · rcases singular_eq_nil h.small hnil with rfl | rfl
    · exact hne rfl
    · obtain ⟨front, big, last, hparted, rfl⟩ := exists_parted hhead
      have hlast := isForm_plural hparted.small
      have hp : pluralChars ['s'] = ['s', 'e', 's'] := by decide
      rw [hnil, show written capital [] = [] by cases capital <;> rfl, List.append_nil, hparted.plural,
        letters_written hlast.1, letters_written hparted.small, List.append_assoc, hp] at hone
      have hlong := List.append_cancel_left hone
      have hsmall := hparted.small
      rw [← List.reverse_reverse last] at hsmall hlong
      have hlen := length_plural (t := 'e' :: 's' :: last.reverse) hsmall (by simpa using hlong)
      rw [List.length_cons, List.length_cons] at hlen
      omega
  · rw [(h.form (isForm_singular h.small hnil)).plural,
      letters_written (isForm_plural (isForm_singular h.small hnil).1).1] at hone
    have hagrees : Agrees word := ⟨List.append_cancel_left hone, List.append_cancel_left hmany⟩
    have hsmall := h.small
    rw [← List.reverse_reverse word] at hsmall hs hagrees
    exact not_agrees_of_strays hsmall hs hagrees

/-- A spelling leads to the table of a name: to its table name, its variable and its directory. -/
structure SameTable (name spelling : String) : Prop where
  tableName : (ModelNames.of spelling).tableName = (ModelNames.of name).tableName
  camelPlural : (ModelNames.of spelling).camelPlural = (ModelNames.of name).camelPlural
  kebabPlural : (ModelNames.of spelling).kebabPlural = (ModelNames.of name).kebabPlural
  exportName : tableVariable spelling = (ModelNames.of name).camelPlural

/-- The last word of a name, in small letters. -/
def lastWord (name : String) : List Char := lower (splitLastWord name.toList).2

theorem validateModelName_word {name : String} (h : validateModelName name = .ok ()) :
    Field.IsWord Char.isAlpha name :=
  Field.isModelName_iff.mp (validateModelName_form h)

theorem validateModelName_alphanum {name : String} (h : validateModelName name = .ok ())
    (hline : '\n' ∉ name.toList) : ∀ c ∈ name.toList, c.isAlphanum = true := by
  obtain ⟨c, cs, hc, hcs, hs | hs⟩ := validateModelName_word h
  · rw [hs]
    refine List.forall_mem_cons.mpr ⟨?_, hcs⟩
    simp only [Char.isAlphanum, hc, Bool.true_or]
  · exact absurd (by simp [hs]) hline

theorem letters_camelCase {a b : List Char} (ha : ∀ c ∈ a, c.isAlphanum = true)
    (hb : ∀ c ∈ b, c.isAlphanum = true)
    (h : camelCase (String.ofList a) = camelCase (String.ofList b)) : letters a = letters b := by
  have hkept : ∀ cs : List Char, (∀ c ∈ cs, c.isAlphanum = true) →
      (camelCase (String.ofList cs)).toList.map Char.toLower = letters cs := by
    intro cs hcs
    rw [camelCase_letters (by simpa using fun c hc => isNameChar_of_isAlphanum (hcs c hc)),
      String.toList_ofList, filter_alphanum hcs]
    rfl
  rw [← hkept a ha, ← hkept b hb, h]

theorem sameTable_of_plural {name spelling : String}
    (h : pluralChars (singularChars spelling.toList) = pluralChars (singularChars name.toList)) :
    SameTable name spelling := by
  have he : plural (singular spelling) = plural (singular name) := by simp [plural, singular, h]
  constructor <;> simp only [ModelNames.of, tableVariable, he]

theorem pluralChars_alphanum {cs : List Char} (h : ∀ c ∈ cs, c.isAlphanum = true) :
    ∀ c ∈ pluralChars cs, c.isAlphanum = true := by
  obtain ⟨head, capital, word, hparted, rfl⟩ := exists_parted h
  rw [hparted.plural]
  exact (hparted.form (isForm_plural hparted.small)).alphanum (List.forall_mem_append.mp h).1

theorem singularChars_alphanum {cs : List Char} (h : ∀ c ∈ cs, c.isAlphanum = true) :
    ∀ c ∈ singularChars cs, c.isAlphanum = true := by
  obtain ⟨head, capital, word, hparted, rfl⟩ := exists_parted h
  have hhead := (List.forall_mem_append.mp h).1
  rw [hparted.singular]
  by_cases hnil : singularChars word = []
  · rw [hnil]
    cases capital <;> simpa [written, capitalize] using hhead
  · exact (hparted.form (isForm_singular hparted.small hnil)).alphanum hhead

/-- Spellings with the same variable are inflected alike. -/
theorem SameTable.letters {name spelling : String} (h : SameTable name spelling)
    (hname : ∀ c ∈ name.toList, c.isAlphanum = true)
    (hspelling : ∀ c ∈ spelling.toList, c.isAlphanum = true) :
    Naming.letters (pluralChars (singularChars spelling.toList)) =
      Naming.letters (pluralChars (singularChars name.toList)) := by
  refine letters_camelCase (pluralChars_alphanum (singularChars_alphanum hspelling))
    (pluralChars_alphanum (singularChars_alphanum hname)) ?_
  simpa [ModelNames.of, plural, singular] using h.camelPlural

/-- Both numbers of a name lead to its table exactly if the last word of its singular is none that
strays. -/
theorem numbers_same_table_iff {name : String} (h : validateModelName name = .ok ())
    (hline : '\n' ∉ name.toList) :
    (SameTable name (ModelNames.of name).pluralName ∧ SameTable name (ModelNames.of name).singularName) ↔
      strays (lastWord (ModelNames.of name).singularName) = false := by
  have hone : (ModelNames.of name).singularName.toList = singularChars name.toList := by
    simp [ModelNames.of, singular]
  have hmany : (ModelNames.of name).pluralName.toList = pluralChars (singularChars name.toList) := by
    simp [ModelNames.of, singular, plural]
  have hname := validateModelName_alphanum h hline
  have hsingular := singularChars_alphanum hname
  obtain ⟨head, capital, word, hparted, htext⟩ := exists_parted hsingular
  have hlast : lastWord (ModelNames.of name).singularName = word := by
    rw [lastWord, hone, htext, hparted.split, lower_written hparted.small]
  rw [hlast]
  constructor
  · rintro ⟨hplural, hself⟩
    have hmany' := hplural.letters hname (hmany ▸ pluralChars_alphanum hsingular)
    have hone' := hself.letters hname (hone ▸ hsingular)
    rw [hmany, htext] at hmany'
    rw [hone, htext] at hone'
    exact hparted.steady (List.forall_mem_append.mp (htext ▸ hsingular)).1 hone' hmany'
  · intro hs
    obtain ⟨hagree, hback⟩ := hparted.agrees hs
    rw [← htext] at hagree hback
    exact ⟨sameTable_of_plural (by rw [hmany, hback]), sameTable_of_plural (by rw [hone, hagree])⟩

/-- A category is found under both its numbers. -/
theorem numbers_same_table_iff_category :
    validateModelName "BlogCategory" = .ok () ∧ '\n' ∉ "BlogCategory".toList ∧
      (SameTable "BlogCategory" (ModelNames.of "BlogCategory").pluralName ∧
        SameTable "BlogCategory" (ModelNames.of "BlogCategory").singularName) :=
  ⟨by decide, by decide, (numbers_same_table_iff (by decide) (by decide)).mpr (by decide)⟩

/-- The plural of a menu is taken for a singular, whose plural is another table. -/
theorem menus_other_table : ¬ ∀ name, validateModelName name = .ok () → '\n' ∉ name.toList →
    SameTable name (ModelNames.of name).pluralName ∧
      SameTable name (ModelNames.of name).singularName := by
  intro hall
  have htable := (hall "Menu" (by decide) (by decide)).1.tableName
  exact absurd htable (by decide)

end SchemaScaffold.Naming
