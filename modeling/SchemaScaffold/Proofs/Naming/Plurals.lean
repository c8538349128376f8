import SchemaScaffold.Proofs.Naming.Routes

/-!
How the spellings of the two numbers differ. Read without capitals and separators, a plural is its
singular unchanged, with an irregular last word, or with an ending put on; so it ends in `s` or in
one of a few words, is hardly shorter than the singular, and never longer by a prefix.
-/

namespace SchemaScaffold.Naming

open Text

/-- The letters and digits of a name, in lower case. -/
def spelled (cs : List Char) : List Char := (cs.filter fun c => !isSeparator c).map Char.toLower

theorem spelled_append (a b : List Char) : spelled (a ++ b) = spelled a ++ spelled b := by
  rw [spelled, List.filter_append, List.map_append]
  rfl

theorem spelled_eq_letters {cs : List Char} (h : ∀ c ∈ cs, c.isAlphanum = true) :
    spelled cs = cs.map Char.toLower := by
  rw [spelled, filter_alphanum h]

/-! ## Plurals -/

/-- The words that are their own plural. -/
def ownPlurals : List String := uncountable ++ irregularPlurals.map (·.2)

/-- What the plural of a name can be, by the letters of both. -/
inductive IsPlural (one : List Char) : List Char → Prop
  | same (h : one = [] ∨ ∃ word ∈ ownPlurals, word.toList <:+ one) : IsPlural one one
  | irregular {front : List Char} {entry : String × String} (h : entry ∈ irregularPlurals)
      (hone : one = front ++ entry.1.toList) : IsPlural one (front ++ entry.2.toList)
  | ies {front : List Char} (h : one.getLast? = some 'y') (hfront : front = one ∨ front = one.dropLast) :
      IsPlural one (front ++ "ies".toList)
  | es : IsPlural one (one ++ "es".toList)
  | s : IsPlural one (one ++ "s".toList)

/-- A word that is in a table without its capitals has the letters of its entry. -/
theorem spelled_of_lower {word : List Char} {key : String} (h : ∀ c ∈ word, isNameChar c = true)
    (hkey : String.ofList (lower word) = key) (hletters : ∀ c ∈ key.toList, c.isAlphanum = true) :
    spelled word = key.toList := by
  have hlower := lower_ascii fun c hc => isNameChar_ascii (h c hc)
  subst hkey
  rw [String.toList_ofList, hlower] at hletters ⊢
  refine spelled_eq_letters fun c hc => ?_
  exact nameChar_forall (p := fun c => c.toLower.isAlphanum = true → c.isAlphanum = true) (by decide)
    (h c hc) (hletters c.toLower (List.mem_map_of_mem hc))

theorem ownPlurals_alphanum : ∀ word ∈ ownPlurals, ∀ c ∈ word.toList, c.isAlphanum = true := by
  have hall : ownPlurals.all (fun word => word.toList.all Char.isAlphanum) = true := by decide
  exact fun word hword => List.all_eq_true.mp (List.all_eq_true.mp hall word hword)

theorem spelled_matchCase (model : List Char) {entry : String × String}
    (h : entry ∈ irregularPlurals) : spelled (matchCase model entry.2) = entry.2.toList := by
  have hall : irregularPlurals.all (fun entry =>
      [entry.2.toList, capitalize entry.2.toList].all fun cs => spelled cs == entry.2.toList) = true := by
    decide
  have hmem : matchCase model entry.2 ∈ [entry.2.toList, capitalize entry.2.toList] := by
    unfold matchCase
    split <;> simp
  exact beq_iff_eq.mp (List.all_eq_true.mp (List.all_eq_true.mp hall entry h) _ hmem)

/-- A character told by its small letter is a separator if that is one. -/
theorem isSeparator_toLower {c : Char} (h : isNameChar c = true) :
    isSeparator c = isSeparator c.toLower :=
  nameChar_forall (p := fun c => isSeparator c = isSeparator c.toLower) (by decide) h

/-- A `y` that becomes `ies` is the last letter; only a line break can stand behind it. -/
theorem spelled_consonantY {word : List Char} (h : ∀ c ∈ word, isNameChar c = true)
    (hy : endsInConsonantY (lower word) = true) : (spelled word).getLast? = some 'y' ∧
      (spelled (dropLast 1 word) = spelled word ∨
        spelled (dropLast 1 word) = (spelled word).dropLast) := by
  have hparts := chomp_append (lower word)
  have hend := chomp_snd (lower word)
  unfold endsInConsonantY at hy
  split at hy
  · rename_i c before hrev
    have hfront : (chomp (lower word)).1 = (c :: before).reverse ++ ['y'] := by
      rw [← List.reverse_cons, ← hrev, List.reverse_reverse]
    rw [hfront] at hparts
    generalize (chomp (lower word)).2 = tail at hparts hend
    rw [lower_ascii fun c hc => isNameChar_ascii (h c hc)] at hparts
    obtain ⟨front, last, rfl, hfront, hlast⟩ := List.map_eq_append_iff.mp hparts.symm
    obtain ⟨front, y, rfl, -, hy⟩ := List.map_eq_append_iff.mp hfront
    obtain ⟨d, rfl, hd⟩ := List.map_eq_singleton_iff.mp hy
    have hkept : isSeparator d = false := by
      rw [isSeparator_toLower (h d (by simp)), hd]
      decide
    have hspelled : spelled [d] = ['y'] := by simp [spelled, hkept, hd]
    rcases hend with rfl | rfl
    · rw [List.map_eq_nil_iff.mp hlast, List.append_nil]
      refine ⟨by simp [spelled_append, hspelled], .inr ?_⟩
      simp [dropLast, spelled_append, hspelled]
    · obtain ⟨e, rfl, he⟩ := List.map_eq_singleton_iff.mp hlast
      have hbreak : isSeparator e = true := by
        rw [isSeparator_toLower (h e (by simp)), he]
        decide
      have hnone : spelled [e] = [] := by simp [spelled, hbreak]
      have hdrop : dropLast 1 (front ++ [d] ++ [e]) = front ++ [d] := by
        rw [dropLast, List.length_append, List.length_singleton, Nat.add_sub_cancel,
          List.take_left]
      rw [hdrop, spelled_append _ [e], hnone, List.append_nil, spelled_append, hspelled]
      exact ⟨by simp, .inl rfl⟩
  · cases hy

/-- A word that the tables keep has the letters of one that is its own plural. -/
theorem spelled_kept {word : List Char} (hword : ∀ c ∈ word, isNameChar c = true)
    (h : uncountable.contains (String.ofList (lower word)) = true ∨
      (irregularSingulars.lookup (String.ofList (lower word))).isSome = true) :
    ∃ key ∈ ownPlurals, spelled word = key.toList := by
  have hkey : String.ofList (lower word) ∈ ownPlurals := by
    rcases h with h | h
    · exact List.mem_append_left _ (List.contains_iff_mem.mp h)
    · obtain ⟨one, hone⟩ := Option.isSome_iff_exists.mp h
      obtain ⟨entry, hentry, he⟩ := List.mem_map.mp (mem_of_lookup hone)
      exact List.mem_append_right _ (List.mem_map.mpr ⟨entry, hentry, congrArg Prod.fst he⟩)
  exact ⟨_, hkey, spelled_of_lower hword rfl (ownPlurals_alphanum _ hkey)⟩

/-- The plural of the last word makes the whole name a plural, by the letters of both. -/
theorem WordPlural.isPlural {head word many : List Char} (h : WordPlural word many)
    (hword : ∀ c ∈ word, isNameChar c = true) (hnil : word = [] → head = []) :
    IsPlural (spelled (head ++ word)) (spelled (head ++ many)) := by
  rw [spelled_append, spelled_append head many]
  cases h with
  | kept hkeep =>
    refine .same ?_
    rcases hkeep with hlower | hkeep
    · left
      rw [lower_ascii fun c hc => isNameChar_ascii (hword c hc), List.map_eq_nil_iff] at hlower
      rw [hnil hlower, hlower]
      rfl
    · right
      obtain ⟨key, hkey, he⟩ := spelled_kept hword hkeep
      exact ⟨key, hkey, spelled head, by rw [he]⟩
  | irregular hmany =>
    have hentry := mem_of_lookup hmany
    rw [spelled_matchCase word hentry]
    exact .irregular hentry (by rw [spelled_of_lower hword rfl (irregular_alphanum _ hentry).1])
  | ies hy =>
    obtain ⟨hlast, hfront⟩ := spelled_consonantY hword hy
    rw [spelled_append, ← List.append_assoc]
    refine .ies (by rw [List.getLast?_append, hlast, Option.some_or]) ?_
    rcases hfront with hfront | hfront
    · exact .inl (by rw [hfront])
    · right
      rw [hfront, List.dropLast_append_of_ne_nil]
      rintro hnone
      rw [hnone] at hlast
      cases hlast
  | es =>
    rw [spelled_append, ← List.append_assoc]
    exact .es
  | s =>
    rw [spelled_append, ← List.append_assoc]
    exact .s

theorem isPlural_spelled {cs : List Char} (h : ∀ c ∈ cs, isNameChar c = true) :
    IsPlural (spelled cs) (spelled (pluralChars cs)) := by
  obtain ⟨head, word, many, rfl, hnil, he, hplural⟩ := pluralChars_cases cs
  rw [he]
  exact hplural.isPlural (List.forall_mem_append.mp h).2 fun hword =>
    (List.append_eq_nil_iff.mp (hnil hword)).1

/-- What plurals end in. -/
def pluralWords : List String := "s" :: ownPlurals

namespace IsPlural

variable {one many : List Char}

theorem ends (h : IsPlural one many) : many = [] ∨ ∃ word ∈ pluralWords, word.toList <:+ many := by
  cases h with
  | same h =>
    rcases h with h | ⟨word, hword, hends⟩
    · exact .inl h
    · exact .inr ⟨word, List.mem_cons_of_mem _ hword, hends⟩
  | irregular h hone =>
    refine .inr ⟨_, List.mem_cons_of_mem _ (List.mem_append_right _ ?_), List.suffix_append _ _⟩
    exact List.mem_map.mpr ⟨_, h, rfl⟩
  | ies h hfront =>
    rename_i front
    exact .inr ⟨"s", by simp [pluralWords], front ++ ['i', 'e'], by simp⟩
  | es => exact .inr ⟨"s", by simp [pluralWords], one ++ ['e'], by simp⟩
  | s => exact .inr ⟨"s", by simp [pluralWords], one, rfl⟩

/-- No irregular plural is shorter by more than a letter, or longer by three with the same end. -/
theorem irregular_lengths : ∀ entry ∈ irregularPlurals,
    entry.1.toList ≠ [] ∧ entry.2.toList ≠ [] ∧ entry.1.toList.length ≤ entry.2.toList.length + 1 ∧
      (entry.2.toList.length < entry.1.toList.length + 3 ∨
        entry.1.toList.getLast? ≠ entry.2.toList.getLast?) := by
  decide

theorem length_le (h : IsPlural one many) : one.length ≤ many.length + 1 := by
  cases h with
  | same h => omega
  | irregular h hone =>
    have := (irregular_lengths _ h).2.2.1
    rw [hone, List.length_append, List.length_append]
    omega
  | ies h hfront => 
    rw [List.length_append]
    rcases hfront with rfl | rfl
    · omega
    · rw [List.length_dropLast]
      omega
  | es =>
    rw [List.length_append]
    omega
  | s =>
    rw [List.length_append]
    omega

theorem not_prefixed (h : IsPlural one many) {x : List Char} (hx : 3 ≤ x.length) :
    many ≠ x ++ one := by
  intro he
  have hlength := congrArg List.length he
  have hlast := congrArg List.getLast? he
  rw [List.length_append] at hlength
  cases h with
  | same h => omega
  | irregular h hone =>
    rw [hone] at hlength hlast
    rw [List.length_append, List.length_append] at hlength
    obtain ⟨hone', hmany', -, hshort | hdiffer⟩ := irregular_lengths _ h
    · omega
    · rw [← List.append_assoc, List.getLast?_append, List.getLast?_append,
        List.getLast?_eq_some_getLast hone', List.getLast?_eq_some_getLast hmany', Option.some_or,
        Option.some_or, ← List.getLast?_eq_some_getLast, ← List.getLast?_eq_some_getLast] at hlast
      exact hdiffer hlast.symm
  | ies h hfront => 
    rw [List.getLast?_append, List.getLast?_append, h] at hlast
    cases hlast
  | es =>
    rw [List.length_append, show "es".toList.length = 2 from rfl] at hlength
    omega
  | s =>
    rw [List.length_append, show "s".toList.length = 1 from rfl] at hlength
    omega

end IsPlural

/-! ## First letters -/

/-- A name is empty or starts with a letter. -/
def Lettered (cs : List Char) : Prop := ∀ c, cs.head? = some c → c.isAlpha = true

theorem Lettered.append {a b : List Char} (ha : Lettered a) (hb : Lettered b) : Lettered (a ++ b) := by
  intro c hc
  rw [List.head?_append, Option.or_eq_some_iff] at hc
  rcases hc with hc | ⟨-, hc⟩
  · exact ha c hc
  · exact hb c hc

theorem Lettered.front {a b : List Char} (h : Lettered (a ++ b)) : Lettered a :=
  fun c hc => h c (by rw [List.head?_append, hc, Option.some_or])

theorem lettered_matchCase (model : List Char) {word : String}
    (h : word ∈ irregularPlurals.map (·.1) ++ irregularPlurals.map (·.2)) :
    Lettered (matchCase model word) := by
  have hall : (irregularPlurals.map (·.1) ++ irregularPlurals.map (·.2)).all (fun word =>
      [word.toList, capitalize word.toList].all fun cs => cs.head?.all Char.isAlpha) = true := by
    decide
  have hmem : matchCase model word ∈ [word.toList, capitalize word.toList] := by
    unfold matchCase
    split <;> simp
  have hhead := List.all_eq_true.mp (List.all_eq_true.mp hall word h) _ hmem
  intro c hc
  rwa [hc, Option.all_some] at hhead

theorem Lettered.dropLast {head word : List Char} (h : Lettered (head ++ word)) (n : Nat) :
    Lettered (head ++ Naming.dropLast n word) := by
  refine Lettered.front (b := word.drop (word.length - n)) ?_
  rwa [List.append_assoc, Naming.dropLast, List.take_append_drop]

theorem lettered_singular {cs : List Char} (h : Lettered cs) : Lettered (singularChars cs) := by
  obtain ⟨head, word, one, rfl, he, hsingular⟩ := singularChars_cases cs
  rw [he]
  cases hsingular with
  | kept => exact h
  | irregular hone =>
    refine h.front.append (lettered_matchCase word (List.mem_append_left _ ?_))
    obtain ⟨entry, hentry, he⟩ := List.mem_map.mp (mem_of_lookup hone)
    exact List.mem_map.mpr ⟨entry, hentry, congrArg Prod.snd he⟩
  | y =>
    rw [← List.append_assoc]
    exact (h.dropLast 3).append (by simp [Lettered])
  | cut n => exact h.dropLast n

theorem lettered_plural {cs : List Char} (h : Lettered cs) : Lettered (pluralChars cs) := by
  obtain ⟨head, word, many, rfl, -, he, hplural⟩ := pluralChars_cases cs
  rw [he]
  cases hplural with
  | kept => exact h
  | irregular hmany =>
    refine h.front.append (lettered_matchCase word (List.mem_append_right _ ?_))
    exact List.mem_map_of_mem (mem_of_lookup hmany)
  | ies =>
    rw [← List.append_assoc]
    exact (h.dropLast 1).append (by simp [Lettered])
  | es =>
    rw [← List.append_assoc]
    exact h.append (by simp [Lettered])
  | s =>
    rw [← List.append_assoc]
    exact h.append (by simp [Lettered])

theorem validateModelName_lettered {name : String} (h : validateModelName name = .ok ()) :
    Lettered name.toList := by
  obtain ⟨-, c, rest, hc, hname⟩ := Field.isModelName_letter (validateModelName_form h)
  intro d hd
  rw [hname] at hd
  cases hd
  exact hc

/-! ## Both numbers of a model's name -/

/-- A name in both numbers: each starts with a letter, and one is the plural of the other. -/
structure Numbered (one many : String) : Prop where
  oneChars : ∀ c ∈ one.toList, isNameChar c = true
  manyChars : ∀ c ∈ many.toList, isNameChar c = true
  oneLettered : Lettered one.toList
  manyLettered : Lettered many.toList
  one_ne_nil : one.toList ≠ []
  many_ne_nil : many.toList ≠ []
  plural : IsPlural (spelled one.toList) (spelled many.toList)

theorem numbered {name : String} (h : validateModelName name = .ok ())
    (htable : (ModelNames.of name).tableName ≠ "") :
    Numbered (singular name) (plural (singular name)) := by
  have hplural : (plural (singular name)).toList = pluralChars (singular name).toList := by
    rw [plural, String.toList_ofList]
  have hchars := nameChars_singular (validateModelName_chars h)
  have hlettered : Lettered (singular name).toList := by
    rw [singular, String.toList_ofList]
    exact lettered_singular (validateModelName_lettered h)
  have hmany : (plural (singular name)).toList ≠ [] := by
    rw [tableName_eq] at htable
    intro hnil
    rw [String.toList_eq_nil_iff.mp hnil] at htable
    exact htable (by decide)
  exact {
    oneChars := hchars
    manyChars := plural_nameChars h
    oneLettered := hlettered
    manyLettered := by
      rw [hplural]
      exact lettered_plural hlettered
    one_ne_nil := by
      intro hnil
      rw [hplural, hnil] at hmany
      exact hmany (by decide)
    many_ne_nil := hmany
    plural := by
      rw [hplural]
      exact isPlural_spelled hchars }

/-! ## Spellings -/

section Spellings

variable {s : String}

/-- A spelling has the letters of the name, in their order. -/
theorem pascalCase_letters (h : ∀ c ∈ s.toList, isNameChar c = true) :
    (pascalCase s).toList.map Char.toLower = spelled s.toList := by
  rw [pascalCase, joinWords_toList, show "".toList = ([] : List Char) from rfl,
    intercalate_nil_eq_flatten, spelled, ← words_flatten, List.map_flatten, List.map_flatten,
    List.map_map]
  congr 1
  exact List.map_congr_left fun w hw => toLower_capitalize (words_alphanum h hw).2

theorem length_camelCase (h : ∀ c ∈ s.toList, isNameChar c = true) :
    (camelCase s).toList.length = (spelled s.toList).length := by
  rw [spelled, ← camelCase_letters h, List.length_map]

theorem length_pascalCase (h : ∀ c ∈ s.toList, isNameChar c = true) :
    (pascalCase s).toList.length = (spelled s.toList).length := by
  rw [← pascalCase_letters h, List.length_map]

theorem words_first {c : Char} {cs : List Char} (hs : s.toList = c :: cs) (hc : c.isAlpha = true) :
    ∃ w ws, words s = (c :: w) :: ws := by
  obtain ⟨rest, hrest⟩ := separate_cons c cs
  rw [words, hs, hrest]
  exact fields_cons _ (alphanum_not_separator (by simp [Char.isAlphanum, hc])) rest

/-- A variable in camel case starts with a small letter. -/
theorem camelCase_first (h : ∀ c ∈ s.toList, isNameChar c = true) (hletter : Lettered s.toList)
    (hne : s.toList ≠ []) : (camelCase s).toList.head?.any Char.isLower = true := by
  obtain ⟨c, cs, hs⟩ := List.exists_cons_of_ne_nil hne
  have hc := hletter c (by rw [hs, List.head?_cons])
  obtain ⟨w, ws, hw⟩ := words_first hs hc
  have hword := (words_alphanum h (hw ▸ List.mem_cons_self)).2
  rw [camelCase_toList s hw, lower_ascii fun d hd => isAlphanum_ascii (hword d hd)]
  exact alphanum_forall (p := fun c => c.isAlpha = true → c.toLower.isLower = true) (by decide)
    (hword c (by simp)) hc

theorem pascalCase_first (h : ∀ c ∈ s.toList, isNameChar c = true) (hletter : Lettered s.toList)
    (hne : s.toList ≠ []) : (pascalCase s).toList.head?.any Char.isUpper = true := by
  obtain ⟨c, cs, hs⟩ := List.exists_cons_of_ne_nil hne
  have hc := hletter c (by rw [hs, List.head?_cons])
  obtain ⟨w, ws, hw⟩ := words_first hs hc
  have hword := (words_alphanum h (hw ▸ List.mem_cons_self)).2
  rw [pascalCase, joinWords_toList, show "".toList = ([] : List Char) from rfl,
    intercalate_nil_eq_flatten, hw, List.map_cons, capitalize_cons w (isAlphanum_ascii (hword c (by simp)))]
  exact alphanum_forall (p := fun c => c.isAlpha = true → c.toUpper.isUpper = true) (by decide)
    (hword c (by simp)) hc

end Spellings

end SchemaScaffold.Naming
