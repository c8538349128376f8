import SchemaScaffold.Proofs.Naming.Numbers
import SchemaScaffold.Proofs.Naming.Recasing

/-!
Spellings of spellings. Camel case lowers the first word of a name and leaves the others as they are,
for each of those starts with a capital already; a small letter before that capital starts the word just
as well. So a name in camel case still has the words of the name, snake case and kebab case cannot tell
the two apart, and spelling a name once more in the same way changes nothing.
-/

namespace SchemaScaffold.Naming

open Text

/-! ## The words of a name in camel case -/

section Cut

variable {w : List Char} {ws : List (List Char)}

/-- A word can stand for itself inside a name. -/
theorem follows_self (hne : w ≠ []) (hchars : ∀ c ∈ w, c.isAlphanum = true) (hwhole : Whole w) :
    Follows w w where
  nonempty := hne
  chars := hchars
  whole := hwhole
  last := fun front a he => ⟨front, a, he, .inr rfl⟩
  head := fun _ back he => ⟨back, he, id⟩

/-- A name stays cut where it was when its first word loses its capitals. -/
theorem Cut.lower_first (h : Cut (w :: ws)) : Cut (lower w :: ws) := by
  have hfirst : Leads w (lower w) :=
    leads_lower (h.nonempty w List.mem_cons_self) (h.chars w List.mem_cons_self)
  have hothers : ∀ v ∈ ws, Follows v (id v) := fun v hv =>
    follows_self (h.tail.nonempty v hv) (h.tail.chars v hv) (h.tail.whole v hv)
  simpa using h.recase hfirst hothers

/-- The words behind the first have their capital already. -/
theorem Cut.map_capitalize (h : Cut (w :: ws)) : ws.map capitalize = ws := by
  have hkept : ∀ v ∈ ws, capitalize v = id v := by
    intro v hv
    obtain ⟨b, back, rfl, hb⟩ := h.capital v hv
    have hascii := isAlphanum_ascii (h.tail.chars _ hv b List.mem_cons_self)
    rw [capitalize_cons back hascii, toUpper_capital hb, id]
  rw [List.map_congr_left hkept, List.map_id]

end Cut

section Respelling

variable {s : String}

theorem words_camelCase (h : ∀ c ∈ s.toList, c.isAlphanum = true) {w : List Char}
    {ws : List (List Char)} (hwords : words s = w :: ws) : words (camelCase s) = lower w :: ws := by
  have hcut := cut_words h
  rw [hwords] at hcut
  have hcamel : camelCase s = String.ofList (lower w :: ws).flatten := by
    rw [← String.toList_inj, camelCase_toList s hwords, hcut.map_capitalize, String.toList_ofList,
      List.flatten_cons]
  rw [hcamel, hcut.lower_first.words]

theorem camelCase_of_no_words (hwords : words s = []) : camelCase s = "" := by
  rw [camelCase, hwords]

theorem lower_words_camelCase (h : ∀ c ∈ s.toList, c.isAlphanum = true) :
    (words (camelCase s)).map lower = (words s).map lower := by
  cases hwords : words s with
  | nil =>
    rw [camelCase_of_no_words hwords]
    rfl
  | cons w ws =>
    have hw := (cut_words h).chars w (hwords ▸ List.mem_cons_self)
    rw [words_camelCase h hwords, List.map_cons, List.map_cons, (small_lower hw).lower]

/-! ## Spelling twice -/

/-- Snake case forgets that a name was written in camel case. -/
theorem snakeCase_camelCase (h : ∀ c ∈ s.toList, c.isAlphanum = true) :
    snakeCase (camelCase s) = snakeCase s := by
  rw [snakeCase, lower_words_camelCase h, ← snakeCase]

theorem kebabCase_camelCase (h : ∀ c ∈ s.toList, c.isAlphanum = true) :
    kebabCase (camelCase s) = kebabCase s := by
  rw [kebabCase, lower_words_camelCase h, ← kebabCase]

theorem camelCase_camelCase (h : ∀ c ∈ s.toList, c.isAlphanum = true) :
    camelCase (camelCase s) = camelCase s := by
  cases hwords : words s with
  | nil =>
    rw [camelCase_of_no_words hwords]
    rfl
  | cons w ws =>
    have hw := (cut_words h).chars w (hwords ▸ List.mem_cons_self)
    rw [← String.toList_inj, camelCase_toList _ (words_camelCase h hwords), camelCase_toList _ hwords,
      (small_lower hw).lower]

theorem snakeCase_snakeCase (h : ∀ c ∈ s.toList, isNameChar c = true) :
    snakeCase (snakeCase s) = snakeCase s := by
  have hsettled : ((words s).map lower).map lower = (words s).map lower := by
    rw [List.map_map]
    exact List.map_congr_left fun w hw => (small_lower (words_alphanum h hw).2).lower
  rw [snakeCase, words_snakeCase h, hsettled, ← snakeCase]

/-! ## The letters of a spelling -/

/-- What joins the words in snake case is the only separator there. -/
theorem separator_iff_snake {c : Char} (h : isSnakeChar c = true) : isSeparator c = (c == '_') :=
  nameChar_forall (p := fun c => isSnakeChar c = true → isSeparator c = (c == '_')) (by decide)
    (isNameChar_of_isSnakeChar h) h

theorem snakeCase_letters (h : ∀ c ∈ s.toList, c.isAlphanum = true) :
    (snakeCase s).toList.filter (!· == '_') = lower s.toList := by
  have hname : ∀ c ∈ s.toList, isNameChar c = true := fun c hc => isNameChar_of_isAlphanum (h c hc)
  have hlower : ∀ w ∈ words s, lower w = w.map Char.toLower := fun w hw =>
    lower_ascii fun c hc => isAlphanum_ascii ((words_alphanum hname hw).2 c hc)
  calc (snakeCase s).toList.filter (!· == '_')
      = (snakeCase s).toList.filter fun c => !isSeparator c :=
        List.filter_congr fun c hc => by rw [separator_iff_snake (snakeCase_chars hname c hc)]
    _ = ((words s).map lower).flatten := by rw [← fields_flatten, fields_snakeCase hname]
    _ = (words s).flatten.map Char.toLower := by rw [List.map_congr_left hlower, List.map_flatten]
    _ = lower s.toList := by
        rw [words_flatten, filter_alphanum h, lower_ascii fun c hc => isAlphanum_ascii (h c hc)]

end Respelling

/-! ## Names and their spellings -/

/-- What the spellings of a name keep of it: its words, its letters, and each other. -/
structure SpellingsKeep (s : String) : Prop where
  joined : (words s).flatten = s.toList
  snake_of_camel : snakeCase (camelCase s) = snakeCase s
  kebab_of_camel : kebabCase (camelCase s) = kebabCase s
  snake_again : snakeCase (snakeCase s) = snakeCase s
  camel_again : camelCase (camelCase s) = camelCase s
  letters : (snakeCase s).toList.filter (!· == '_') = lower s.toList

theorem spellingsKeep {s : String} (h : ∀ c ∈ s.toList, c.isAlphanum = true) : SpellingsKeep s where
  joined := by rw [words_flatten, filter_alphanum h]
  snake_of_camel := snakeCase_camelCase h
  kebab_of_camel := kebabCase_camelCase h
  snake_again := snakeCase_snakeCase fun c hc => isNameChar_of_isAlphanum (h c hc)
  camel_again := camelCase_camelCase h
  letters := snakeCase_letters h

theorem plural_alphanum {name : String} (h : ∀ c ∈ name.toList, c.isAlphanum = true) :
    ∀ c ∈ (plural (singular name)).toList, c.isAlphanum = true := by
  rw [plural, singular, String.toList_ofList, String.toList_ofList]
  exact pluralChars_alphanum (singularChars_alphanum h)

/-- The spellings of a name agree with each other, so the variable of a model's table settles the name of
the table and the route directory. -/
theorem casing_keeps_words :
    (∀ s : String, (∀ c ∈ s.toList, c.isAlphanum = true) → SpellingsKeep s) ∧
    ∀ a b : String, validateModelName a = .ok () → validateModelName b = .ok () →
      '\n' ∉ a.toList → '\n' ∉ b.toList →
      (ModelNames.of a).camelPlural = (ModelNames.of b).camelPlural →
      (ModelNames.of a).tableName = (ModelNames.of b).tableName ∧
        (ModelNames.of a).kebabPlural = (ModelNames.of b).kebabPlural := by
  refine ⟨fun s => spellingsKeep, fun a b ha hb hlineA hlineB h => ?_⟩
  have hpluralA := spellingsKeep (plural_alphanum (validateModelName_alphanum ha hlineA))
  have hpluralB := spellingsKeep (plural_alphanum (validateModelName_alphanum hb hlineB))
  rw [camelPlural_eq, camelPlural_eq] at h
  rw [tableName_eq, tableName_eq, kebabPlural_eq, kebabPlural_eq]
  constructor
  · rw [← hpluralA.snake_of_camel, h, hpluralB.snake_of_camel]
  · rw [← hpluralA.kebab_of_camel, h, hpluralB.kebab_of_camel]

/-- An acronym in front, a number inside, and one table named in both numbers. -/
theorem casing_keeps_words_acronym :
    ((∀ c ∈ "HTTPServer2Go".toList, c.isAlphanum = true) ∧ SpellingsKeep "HTTPServer2Go" ∧
      camelCase "HTTPServer2Go" = "httpServer2Go" ∧ snakeCase "HTTPServer2Go" = "http_server2_go") ∧
    validateModelName "XMLFeed" = .ok () ∧ validateModelName "xmlFeeds" = .ok () ∧
      '\n' ∉ "XMLFeed".toList ∧ '\n' ∉ "xmlFeeds".toList ∧
      (ModelNames.of "XMLFeed").camelPlural = (ModelNames.of "xmlFeeds").camelPlural ∧
      (ModelNames.of "XMLFeed").tableName = (ModelNames.of "xmlFeeds").tableName ∧
      (ModelNames.of "XMLFeed").kebabPlural = (ModelNames.of "xmlFeeds").kebabPlural := by
  have hchars : ∀ c ∈ "HTTPServer2Go".toList, c.isAlphanum = true := List.all_eq_true.mp (by decide)
  have hone : validateModelName "XMLFeed" = .ok () := rfl
  have hmany : validateModelName "xmlFeeds" = .ok () := rfl
  have hbreakOne : '\n' ∉ "XMLFeed".toList := by decide
  have hbreakMany : '\n' ∉ "xmlFeeds".toList := by decide
  have hvariable : (ModelNames.of "XMLFeed").camelPlural = (ModelNames.of "xmlFeeds").camelPlural := by
    decide +kernel
  have hkept := casing_keeps_words.1 "HTTPServer2Go" hchars
  have htable := casing_keeps_words.2 "XMLFeed" "xmlFeeds" hone hmany hbreakOne hbreakMany hvariable
  exact ⟨⟨hchars, hkept, by decide +kernel, by decide +kernel⟩, hone, hmany, hbreakOne, hbreakMany,
    hvariable, htable.1, htable.2⟩

end SchemaScaffold.Naming
