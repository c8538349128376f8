import SchemaScaffold.Proofs.Naming.Numbers
import SchemaScaffold.Proofs.Naming.WordStarts

/-!
Compound names in both numbers. Inflection takes the last word of a name to start at its last capital;
spelling takes a word to start there only if a small letter or a digit stands before the capital, or a
small letter behind it. A plural has a small letter behind that capital, so the two agree on the words
before the last one, unless the singular ends in two capitals: there the plural tears an acronym apart.
-/

namespace SchemaScaffold.Naming

open Text

/-- Two lists of one length that differ in their last element at most. -/
def SameButLast {α : Type} (as bs : List α) : Prop := as.length = bs.length ∧ as.dropLast = bs.dropLast

instance {α : Type} [DecidableEq α] (as bs : List α) : Decidable (SameButLast as bs) :=
  inferInstanceAs (Decidable (_ ∧ _))

/-! ## The words of a compound -/

theorem capitalized_cons {c : Char} (hc : c.isUpper = true) (cs : List Char) : Capitalized (c :: cs) := by
  intro d hd
  cases hd
  exact hc

/-- A word goes on over a capital that starts none. -/
theorem whole_append {front : List Char} {a c : Char} {t : List Char} (h : Whole (front ++ [a]))
    (hc : c.isUpper = true) (ht : Small t) (hstart : startsWord a c t.head? = false) :
    Whole (front ++ [a] ++ c :: t) := by
  induction front with
  | nil => exact ⟨hstart, whole_of_small fun d hd => not_isUpper_small (ht d hd)⟩
  | cons d front ih =>
    obtain ⟨e, cs, hcs⟩ : ∃ e cs, front ++ [a] = e :: cs := List.exists_cons_of_ne_nil (by simp)
    rw [List.cons_append, hcs] at h ⊢
    rw [hcs] at ih
    have hinside : startsWord d e (cs ++ c :: t).head? = false := by
      rw [startsWord_append _ _ _ (capitalized_cons hc t)]
      exact h.1
    exact ⟨hinside, ih h.2⟩

theorem Cut.concat {ws : List (List Char)} {front : List Char} {a c : Char} {t : List Char}
    (h : Cut (ws ++ [front ++ [a]])) (hc : c.isUpper = true) (ht : Small t)
    (hstart : startsWord a c t.head? = true) : Cut (ws ++ [front ++ [a]] ++ [c :: t]) where
  nonempty := List.forall_mem_append.mpr ⟨h.nonempty, by simp⟩
  chars := by
    refine List.forall_mem_append.mpr ⟨h.chars, ?_⟩
    rw [List.forall_mem_singleton, List.forall_mem_cons]
    exact ⟨by simp [isAlphanum_eq, hc], fun d hd => isLowerOrDigit_alphanum (ht d hd)⟩
  whole := by
    refine List.forall_mem_append.mpr ⟨h.whole, ?_⟩
    rw [List.forall_mem_singleton]
    exact whole_of_small fun d hd => not_isUpper_small (ht d hd)
  meets := by
    refine List.isChain_append.mpr ⟨h.meets, by simp, ?_⟩
    intro w hw v hv
    rw [List.getLast?_concat, Option.mem_some_iff] at hw
    rw [List.head?_cons, Option.mem_some_iff] at hv
    exact ⟨front, a, c, t, hw.symm, hv.symm, hstart⟩

theorem Cut.extend {ws : List (List Char)} {front : List Char} {a c : Char} {t : List Char}
    (h : Cut (ws ++ [front ++ [a]])) (hc : c.isUpper = true) (ht : Small t)
    (hstart : startsWord a c t.head? = false) : Cut (ws ++ [front ++ [a] ++ c :: t]) where
  nonempty := List.forall_mem_append.mpr ⟨(List.forall_mem_append.mp h.nonempty).1, by simp⟩
  chars := by
    obtain ⟨hws, hw⟩ := List.forall_mem_append.mp h.chars
    rw [List.forall_mem_singleton] at hw
    refine List.forall_mem_append.mpr ⟨hws, ?_⟩
    rw [List.forall_mem_singleton, List.forall_mem_append, List.forall_mem_cons]
    exact ⟨hw, by simp [isAlphanum_eq, hc], fun d hd => isLowerOrDigit_alphanum (ht d hd)⟩
  whole := by
    obtain ⟨hws, hw⟩ := List.forall_mem_append.mp h.whole
    rw [List.forall_mem_singleton] at hw
    refine List.forall_mem_append.mpr ⟨hws, ?_⟩
    rw [List.forall_mem_singleton]
    exact whole_append hw hc ht hstart
  meets := by
    obtain ⟨hws, -, hlast⟩ := List.isChain_append.mp h.meets
    refine List.isChain_append.mpr ⟨hws, by simp, ?_⟩
    intro w hw v hv
    rw [List.head?_cons, Option.mem_some_iff] at hv
    subst hv
    obtain ⟨before, e, b, back, rfl, hback, hjoint⟩ := hlast w hw (front ++ [a]) (by simp)
    refine ⟨before, e, b, back ++ c :: t, rfl, by rw [hback]; rfl, ?_⟩
    rw [startsWord_append _ _ _ (capitalized_cons hc t)]
    exact hjoint

theorem words_of_whole {w : List Char} (hne : w ≠ []) (hchars : ∀ c ∈ w, c.isAlphanum = true)
    (hwhole : Whole w) : words (String.ofList w) = [w] := by
  have hcut : Cut [w] := ⟨by simpa using hne, by simpa using hchars, by simpa using hwhole, by simp⟩
  simpa using hcut.words

theorem words_of_small {c : Char} {t : List Char} (hc : c.isAlphanum = true) (ht : Small t) :
    words (String.ofList (c :: t)) = [c :: t] := by
  refine words_of_whole (by simp) ?_ (whole_of_small fun d hd => not_isUpper_small (ht d hd))
  exact List.forall_mem_cons.mpr ⟨hc, fun d hd => isLowerOrDigit_alphanum (ht d hd)⟩

/-- What the last capital of a name does to its words: it starts a word of its own, or it goes on the
word before it. -/
theorem words_compound {front : List Char} {a c : Char}
    (h : ∀ d ∈ front ++ [a], d.isAlphanum = true) (hc : c.isUpper = true) :
    ∃ ws w, ∀ t, Small t → words (String.ofList (front ++ [a] ++ c :: t)) =
      if startsWord a c t.head? then ws ++ [w] ++ [c :: t] else ws ++ [w ++ c :: t] := by
  obtain ⟨all, hcut, hflat⟩ := exists_cut h
  obtain ⟨ws, w, rfl⟩ : ∃ ws w, all = ws ++ [w] := by
    rcases List.eq_nil_or_concat all with rfl | ⟨ws, w, rfl⟩
    · simp at hflat
    · exact ⟨ws, w, List.concat_eq_append⟩
  obtain ⟨rest, b, rfl⟩ : ∃ rest b, w = rest ++ [b] := by
    rcases List.eq_nil_or_concat w with rfl | ⟨rest, b, rfl⟩
    · exact absurd rfl (hcut.nonempty [] (by simp))
    · exact ⟨rest, b, List.concat_eq_append⟩
  obtain rfl : b = a := by simpa using congrArg List.getLast? hflat
  refine ⟨ws, rest ++ [b], fun t ht => ?_⟩
  rw [← hflat]
  split
  · rename_i hstart
    have hwords := (hcut.concat hc ht hstart).words
    simpa only [List.flatten_append, List.flatten_singleton, List.append_assoc] using hwords
  · rename_i hstart
    have hwords := (hcut.extend hc ht (Bool.eq_false_iff.mpr hstart)).words
    simpa only [List.flatten_append, List.flatten_singleton, List.append_assoc] using hwords

/-- Two endings of a name change its last word only if the last capital stands to the letter before it
in the same way. -/
theorem sameButLast_words_iff {α : Type} (f : List Char → α) {front : List Char} {a c : Char}
    {t t' : List Char} (h : ∀ d ∈ front ++ [a], d.isAlphanum = true) (hc : c.isUpper = true)
    (ht : Small t) (ht' : Small t') :
    SameButLast ((words (String.ofList (front ++ [a] ++ c :: t))).map f)
        ((words (String.ofList (front ++ [a] ++ c :: t'))).map f) ↔
      startsWord a c t.head? = startsWord a c t'.head? := by
  obtain ⟨ws, w, hwords⟩ := words_compound h hc
  rw [hwords t ht, hwords t' ht']
  cases startsWord a c t.head? <;> cases startsWord a c t'.head? <;>
    simp [SameButLast]

/-! ## Words of a spelling -/

theorem splitAt_joinWords {c : Char} {separator : String} (hseparator : separator.toList = [c])
    (hc : c.isAlphanum = false) {s : String} (h : ∀ d ∈ s.toList, isNameChar d = true)
    (hne : words s ≠ []) :
    splitAt c (joinWords separator ((words s).map lower)) =
      (words s).map fun w => String.ofList (lower w) := by
  rw [splitAt, joinWords_toList, hseparator, split_intercalate (by simpa using hne), List.map_map]
  · rfl
  · intro piece hpiece hmem
    obtain ⟨w, hw, rfl⟩ := List.mem_map.mp hpiece
    rw [alphanum_of_small ((lower_word h hw).2 c hmem)] at hc
    cases hc

theorem words_ne_nil {s : String} (h : ∀ c ∈ s.toList, c.isAlphanum = true) (hne : s.toList ≠ []) :
    words s ≠ [] := by
  intro hnil
  have hflat := words_flatten s
  rw [hnil, filter_alphanum h] at hflat
  exact hne hflat.symm

/-! ## The letter behind a capital -/

theorem exceptions_second : ∀ word ∈ exceptions, word.toList = [] ∨
    (pluralChars word.toList).tail.head?.any Char.isLower =
      (word.toList.tail.isEmpty || word.toList.tail.head?.any Char.isLower) := by
  decide +kernel

/-- A plural has a small letter in the second place, unless the word has a digit there. -/
theorem plural_second {c : Char} {t : List Char} (h : Small (c :: t)) : ∃ t',
    pluralChars (c :: t) = c :: t' ∧ Small t' ∧
      t'.head?.any Char.isLower = (t.isEmpty || t.head?.any Char.isLower) := by
  obtain ⟨hsmall, hhead⟩ := isForm_plural h
  obtain ⟨t', ht'⟩ : ∃ t', pluralChars (c :: t) = c :: t' := List.head?_eq_some_iff.mp hhead
  refine ⟨t', ht', fun d hd => hsmall d (ht' ▸ List.mem_cons_of_mem _ hd), ?_⟩
  obtain ⟨r, hr⟩ : ∃ r : List Char, r.reverse = c :: t := ⟨(c :: t).reverse, List.reverse_reverse _⟩
  have happend : ∀ ending : List Char, ending.head?.any Char.isLower = true →
      pluralChars (c :: t) = c :: t ++ ending →
        t'.head?.any Char.isLower = (t.isEmpty || t.head?.any Char.isLower) := by
    intro ending hletter hform
    obtain rfl : t' = t ++ ending := List.tail_eq_of_cons_eq (ht'.symm.trans hform)
    cases t with
    | nil => simpa using hletter
    | cons d t => simp
  by_cases hexception : r ∈ exceptions.map fun word => word.toList.reverse
  · obtain ⟨word, hword, rfl⟩ := List.mem_map.mp hexception
    rw [List.reverse_reverse] at hr
    simpa [hr, ht'] using exceptions_second word hword
  rw [← hr] at h happend ht'
  rcases (Regular.mk h hexception).plural_cases with ⟨d, u, rfl, -, hform⟩ | ⟨-, hform⟩ | ⟨-, -, hform⟩
  · have hword : u.reverse ++ [d, 'y'] = c :: t := by simpa using hr
    have hies : u.reverse ++ [d, 'i', 'e', 's'] = c :: t' := by
      rw [← ht', hform]
      simp
    cases hu : u.reverse with
    | nil =>
      rw [hu] at hword hies
      cases hword
      cases hies
      decide
    | cons e v =>
      rw [hu, List.cons_append] at hword hies
      cases hword
      cases hies
      cases v <;> simp
  · exact happend ['e', 's'] (by decide) (by rw [hform]; simp)
  · exact happend ['s'] (by decide) (by rw [hform]; simp)

/-- A name ends in two capitals. -/
def endsInCapitals (cs : List Char) : Bool :=
  match cs.reverse with
  | b :: a :: _ => a.isUpper && b.isUpper
  | _ => false

theorem endsInCapitals_small (cs : List Char) {t : List Char} (ht : Small t) (hne : t ≠ []) :
    endsInCapitals (cs ++ t) = false := by
  obtain ⟨u, d, rfl⟩ := (List.eq_nil_or_concat t).resolve_left hne
  have hd := not_isUpper_small (ht d (by simp))
  rw [endsInCapitals, List.concat_eq_append, ← List.append_assoc, List.reverse_concat]
  cases (cs ++ u).reverse with
  | nil => rfl
  | cons a r => simp [hd]

theorem endsInCapitals_capital {c : Char} {t : List Char} (ht : Small t) :
    endsInCapitals (c :: t) = false := by
  by_cases hnil : t = []
  · rw [hnil]
    rfl
  · exact endsInCapitals_small [c] ht hnil

/-- A name with a capital in its last word ends in two capitals if nothing but one stands before it. -/
theorem endsInCapitals_compound {front : List Char} {a c : Char} {t : List Char}
    (hc : c.isUpper = true) (ht : Small t) :
    endsInCapitals (front ++ [a] ++ c :: t) = (t.isEmpty && a.isUpper) := by
  by_cases hnil : t = []
  · rw [hnil]
    simp [endsInCapitals, hc]
  · rw [List.append_cons, endsInCapitals_small _ ht hnil]
    simp [hnil]

/-! ## Both numbers -/

/-- The snake case and the kebab case of a model differ between its numbers in the last word only. -/
def InflectsLast (names : ModelNames) : Prop :=
  SameButLast (splitAt '_' names.snakeName) (splitAt '_' names.snakePlural) ∧
    SameButLast (splitAt '-' names.kebabName) (splitAt '-' names.kebabPlural)

instance (names : ModelNames) : Decidable (InflectsLast names) :=
  inferInstanceAs (Decidable (_ ∧ _))

theorem pluralChars_ne_nil {cs : List Char} (h : ∀ c ∈ cs, c.isAlphanum = true) (hne : cs ≠ []) :
    pluralChars cs ≠ [] := by
  obtain ⟨head, capital, word, hparted, rfl⟩ := exists_parted h
  rw [hparted.plural]
  intro hnil
  obtain ⟨rfl, hword⟩ := List.append_eq_nil_iff.mp hnil
  have hlength : (written capital (pluralChars word)).length = (pluralChars word).length :=
    length_written (isForm_plural hparted.small).1
  rw [hword] at hlength
  rw [plural_eq_nil hparted.small (List.eq_nil_of_length_eq_zero hlength.symm)] at hne
  exact hne (by cases capital <;> rfl)

/-- The words of a name and of its plural, lowered, tell whether only the last one changes. -/
theorem inflectsLast_iff_words {name : String} (h : ∀ c ∈ (singular name).toList, c.isAlphanum = true)
    (hne : (singular name).toList ≠ []) : InflectsLast (ModelNames.of name) ↔
      SameButLast ((words (singular name)).map fun w => String.ofList (lower w))
        ((words (plural (singular name))).map fun w => String.ofList (lower w)) := by
  have hplural : ∀ c ∈ (plural (singular name)).toList, c.isAlphanum = true := by
    rw [plural, String.toList_ofList]
    exact pluralChars_alphanum h
  have hplural_ne : (plural (singular name)).toList ≠ [] := by
    rw [plural, String.toList_ofList]
    exact pluralChars_ne_nil h hne
  have hone := words_ne_nil h hne
  have hmany := words_ne_nil hplural hplural_ne
  have hnames {s : String} (hs : ∀ c ∈ s.toList, c.isAlphanum = true) :
      ∀ c ∈ s.toList, isNameChar c = true := fun c hc => isNameChar_of_isAlphanum (hs c hc)
  simp only [InflectsLast, ModelNames.of, snakeCase, kebabCase]
  rw [splitAt_joinWords rfl (by decide) (hnames h) hone,
    splitAt_joinWords rfl (by decide) (hnames hplural) hmany,
    splitAt_joinWords rfl (by decide) (hnames h) hone,
    splitAt_joinWords rfl (by decide) (hnames hplural) hmany, and_self]

theorem Parted.sameButLast_iff {α : Type} (f : List Char → α) {head word : List Char} {capital : Bool}
    (h : Parted head capital word) (hhead : ∀ c ∈ head, c.isAlphanum = true) (hne : word ≠ []) :
    SameButLast ((words (String.ofList (head ++ written capital word))).map f)
        ((words (String.ofList (pluralChars (head ++ written capital word)))).map f) ↔
      endsInCapitals (head ++ written capital word) = false := by
  obtain ⟨c, t, rfl⟩ := List.exists_cons_of_ne_nil hne
  obtain ⟨t', hplural, ht', hsecond⟩ := plural_second h.small
  obtain ⟨hc, ht⟩ := List.forall_mem_cons.mp h.small
  rw [h.plural, hplural]
  cases capital with
  | false =>
    have hone := words_of_small (isLowerOrDigit_alphanum hc) ht
    have hmany := words_of_small (isLowerOrDigit_alphanum hc) ht'
    rw [h.lone rfl]
    simp only [written, Bool.false_eq_true, if_false, List.nil_append, hone, hmany]
    exact iff_of_true ⟨rfl, rfl⟩ (endsInCapitals_capital ht)
  | true =>
    have hletter : c.isLower = true := by simpa using h.letter rfl
    have hchar := isLowerOrDigit_alphanum hc
    have hupper := isUpper_toUpper hletter
    simp only [written, if_true, capitalize_cons _ (isAlphanum_ascii hchar)]
    rcases List.eq_nil_or_concat head with rfl | ⟨front, a, rfl⟩
    · have hone := words_of_small (c := c.toUpper) (by simp [isAlphanum_eq, hupper]) ht
      have hmany := words_of_small (c := c.toUpper) (by simp [isAlphanum_eq, hupper]) ht'
      rw [List.nil_append, List.nil_append, hone, hmany]
      exact iff_of_true ⟨rfl, rfl⟩ (endsInCapitals_capital ht)
    · rw [List.concat_eq_append] at hhead ⊢
      rw [sameButLast_words_iff f hhead hupper ht ht', endsInCapitals_compound hupper ht]
      have ha := alphanum_forall (p := fun a => isLowerOrDigit a = !a.isUpper) (by decide)
        (hhead a (by simp))
      -- behind a small letter the capital starts a word in both numbers, behind a capital only if
      -- a small letter follows, and that the plural always has
      simp only [startsWord, hupper, ha, hsecond, Bool.true_and]
      cases a.isUpper <;> cases t <;> simp

/-- The words before the last one are those of the singular, exactly if the singular does not end in
two capitals. -/
theorem inflectsLast_iff {name : String} (h : validateModelName name = .ok ())
    (hline : '\n' ∉ name.toList) (hne : (ModelNames.of name).singularName ≠ "") :
    InflectsLast (ModelNames.of name) ↔
      endsInCapitals (ModelNames.of name).singularName.toList = false := by
  have hchars : ∀ c ∈ (singular name).toList, c.isAlphanum = true := by
    rw [singular, String.toList_ofList]
    exact singularChars_alphanum (validateModelName_alphanum h hline)
  have hone : (ModelNames.of name).singularName = singular name := by rw [ModelNames.of]
  rw [hone] at hne ⊢
  rw [inflectsLast_iff_words hchars (by simpa using hne)]
  obtain ⟨head, capital, word, hparted, htext⟩ := exists_parted hchars
  have hword : word ≠ [] := by
    rintro rfl
    cases capital with
    | false =>
      rw [hparted.lone rfl] at htext
      exact hne (String.toList_eq_nil_iff.mp htext)
    | true => cases hparted.letter rfl
  have hhead := (List.forall_mem_append.mp (htext ▸ hchars)).1
  have hsame := hparted.sameButLast_iff (fun w => String.ofList (lower w)) hhead hword
  rw [← htext, String.ofList_toList] at hsame
  exact hsame

/-- An acronym that is not the last word stays whole. -/
theorem inflectsLast_iff_key :
    validateModelName "APIKeys" = .ok () ∧ '\n' ∉ "APIKeys".toList ∧
      (ModelNames.of "APIKeys").singularName ≠ "" ∧ InflectsLast (ModelNames.of "APIKeys") :=
  ⟨by decide, by decide, by decide,
    (inflectsLast_iff (by decide) (by decide) (by decide)).mpr (by decide)⟩

/-- An acronym at the end is one word in the singular, and two in the plural. -/
theorem acronym_torn : ¬ ∀ name, validateModelName name = .ok () → '\n' ∉ name.toList →
    (ModelNames.of name).singularName ≠ "" → InflectsLast (ModelNames.of name) := by
  intro hall
  have hurl := hall "BlogURL" (by decide) (by decide) (by decide)
  exact absurd hurl (by decide)

end SchemaScaffold.Naming
