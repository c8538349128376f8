import SchemaScaffold.Proofs.Field.Accepted
import SchemaScaffold.Proofs.Naming.Spellings

/-!
Route directories. The directory of a model is its plural in kebab case: small letters, digits and
hyphens. It tells the words of the plural, so two models share it only if they share a table, and as
a plural it is none of the segments that the generated modules use themselves.
-/

namespace SchemaScaffold.Naming

open Text

/-- The plural that the names of a model are spelled from. -/
theorem plural_nameChars {name : String} (h : validateModelName name = .ok ()) :
    ∀ c ∈ (plural (singular name)).toList, isNameChar c = true :=
  nameChars_plural (validateModelName_chars h)

/-! ## Kebab case -/

/-- The characters of a route directory. -/
def isKebabChar (c : Char) : Bool := c.isLower || c.isDigit || c == '-'

theorem lower_word {s : String} (h : ∀ c ∈ s.toList, isNameChar c = true) {w : List Char}
    (hw : w ∈ words s) : lower w ≠ [] ∧ ∀ c ∈ lower w, (c.isLower || c.isDigit) = true := by
  obtain ⟨hne, hchars⟩ := words_alphanum h hw
  refine ⟨?_, lower_alphanum hchars⟩
  rw [lower_ascii fun c hc => isAlphanum_ascii (hchars c hc)]
  simpa using hne

theorem kebabCase_chars {s : String} (h : ∀ c ∈ s.toList, isNameChar c = true) :
    ∀ c ∈ (kebabCase s).toList, isKebabChar c = true := by
  rw [kebabCase, joinWords_toList]
  intro c hc
  rcases mem_intercalate hc with hc | ⟨w, hw, hc⟩
  · rw [show c = '-' by simpa using hc]
    decide
  · obtain ⟨v, hv, rfl⟩ := List.mem_map.mp hw
    have := (lower_word h hv).2 c hc
    simp [isKebabChar, this]

/-- Words that hold no separator are told by their spelling. -/
theorem fields_intercalate {p : Char → Bool} {c : Char} (hc : p c = true) {ws : List (List Char)}
    (hws : ∀ w ∈ ws, w ≠ [] ∧ ∀ d ∈ w, p d = false) : fields p ([c].intercalate ws) = ws := by
  induction ws with
  | nil => rfl
  | cons w ws ih =>
    obtain ⟨hne, hw⟩ := hws w (by simp)
    cases ws with
    | nil => simpa using fields_of_none hne hw
    | cons v ws =>
      rw [List.intercalate_cons_cons, List.append_assoc, List.singleton_append, fields_append p hc,
        fields_of_none hne hw, ih fun u hu => hws u (List.mem_cons_of_mem _ hu)]
      rfl

theorem fields_kebabCase {s : String} (h : ∀ c ∈ s.toList, isNameChar c = true) :
    fields (· == '-') (kebabCase s).toList = (words s).map lower := by
  rw [kebabCase, joinWords_toList]
  refine fields_intercalate (by decide) fun w hw => ?_
  obtain ⟨v, hv, rfl⟩ := List.mem_map.mp hw
  obtain ⟨hne, hchars⟩ := lower_word h hv
  refine ⟨hne, fun d hd => ?_⟩
  have hnot : ¬ ('-'.isLower || '-'.isDigit) = true := by decide
  exact beq_false_of_ne fun he => hnot (he ▸ hchars d hd)

theorem alphanum_of_small {c : Char} (h : (c.isLower || c.isDigit) = true) : c.isAlphanum = true := by
  rw [isAlphanum_eq, Bool.or_assoc, h, Bool.or_true]

theorem fields_snakeCase {s : String} (h : ∀ c ∈ s.toList, isNameChar c = true) :
    fields isSeparator (snakeCase s).toList = (words s).map lower := by
  rw [snakeCase, joinWords_toList]
  refine fields_intercalate (by decide) fun w hw => ?_
  obtain ⟨v, hv, rfl⟩ := List.mem_map.mp hw
  obtain ⟨hne, hchars⟩ := lower_word h hv
  exact ⟨hne, fun c hc => alphanum_not_separator (alphanum_of_small (hchars c hc))⟩

/-- Names that share a route directory share a table. -/
theorem snakeCase_of_kebabCase {s t : String} (hs : ∀ c ∈ s.toList, isNameChar c = true)
    (ht : ∀ c ∈ t.toList, isNameChar c = true) (h : kebabCase s = kebabCase t) :
    snakeCase s = snakeCase t := by
  have hwords : (words s).map lower = (words t).map lower := by
    rw [← fields_kebabCase hs, ← fields_kebabCase ht, h]
  rw [snakeCase, snakeCase, hwords]

theorem kebabCase_eq_empty {s : String} (h : ∀ c ∈ s.toList, isNameChar c = true) :
    kebabCase s = "" ↔ snakeCase s = "" := by
  rw [snakeCase_eq_empty h]
  constructor
  · intro he
    have hfields := fields_kebabCase h
    rw [he] at hfields
    exact List.map_eq_nil_iff.mp hfields.symm
  · intro he
    simp [kebabCase, he, joinWords]

/-- A spelling has the letters of the name, in their order. -/
theorem kebabCase_letters {s : String} (h : ∀ c ∈ s.toList, isNameChar c = true) :
    (kebabCase s).toList.filter (!· == '-') =
      (s.toList.filter fun c => !isSeparator c).map Char.toLower := by
  rw [← words_flatten, ← fields_flatten, fields_kebabCase h, List.map_flatten]
  congr 1
  refine List.map_congr_left fun w hw => ?_
  exact lower_ascii fun c hc => isAlphanum_ascii ((words_alphanum h hw).2 c hc)

/-! ## The names of a model -/

theorem pascalName_eq (name : String) :
    (ModelNames.of name).pascalName = pascalCase (singular name) := by
  rw [ModelNames.of]

theorem camelName_eq (name : String) :
    (ModelNames.of name).camelName = camelCase (singular name) := by
  rw [ModelNames.of]

theorem pascalPlural_eq (name : String) :
    (ModelNames.of name).pascalPlural = pascalCase (plural (singular name)) := by
  rw [ModelNames.of]

theorem camelPlural_eq (name : String) :
    (ModelNames.of name).camelPlural = camelCase (plural (singular name)) := by
  rw [ModelNames.of]

theorem kebabPlural_eq (name : String) :
    (ModelNames.of name).kebabPlural = kebabCase (plural (singular name)) := by
  rw [ModelNames.of]

theorem tableName_eq (name : String) :
    (ModelNames.of name).tableName = snakeCase (plural (singular name)) := by
  rw [ModelNames.of]

/-! ## The directory of a model -/

theorem kebabPlural_chars {name : String} (h : validateModelName name = .ok ()) :
    ∀ c ∈ (ModelNames.of name).kebabPlural.toList, isKebabChar c = true := by
  rw [kebabPlural_eq]
  exact kebabCase_chars (plural_nameChars h)

theorem kebabPlural_eq_empty {name : String} (h : validateModelName name = .ok ()) :
    (ModelNames.of name).kebabPlural = "" ↔ (ModelNames.of name).tableName = "" := by
  rw [kebabPlural_eq, tableName_eq]
  exact kebabCase_eq_empty (plural_nameChars h)

theorem tableName_of_kebabPlural {a b : String} (ha : validateModelName a = .ok ())
    (hb : validateModelName b = .ok ())
    (h : (ModelNames.of a).kebabPlural = (ModelNames.of b).kebabPlural) :
    (ModelNames.of a).tableName = (ModelNames.of b).tableName := by
  rw [kebabPlural_eq, kebabPlural_eq] at h
  rw [tableName_eq, tableName_eq]
  exact snakeCase_of_kebabCase (plural_nameChars ha) (plural_nameChars hb) h

/-- A route directory ends as plurals do. -/
theorem kebabPlural_last {name : String} (h : validateModelName name = .ok ()) {c : Char}
    (hc : ((ModelNames.of name).kebabPlural.toList.filter (!· == '-')).getLast? = some c) :
    c ∈ pluralEndings := by
  have hchars := plural_nameChars h
  have hends := (plural_last (validateModelName_chars h)).filter hchars
  rw [kebabPlural_eq, kebabCase_letters hchars, List.getLast?_map] at hc
  obtain ⟨d, hd, rfl⟩ := Option.map_eq_some_iff.mp hc
  exact hends d hd

/-- The segments that stand beside or below the directories of models. -/
def routeSegments : List String := ["api", "new", "[id]", "actions.ts", "page.tsx", "route.ts"]

theorem kebabPlural_not_segment {name : String} (h : validateModelName name = .ok ()) :
    (ModelNames.of name).kebabPlural ∉ routeSegments := by
  intro hmem
  have hchars := kebabPlural_chars h
  have hlast := @kebabPlural_last name h
  generalize (ModelNames.of name).kebabPlural = k at hmem hchars hlast
  have hall : routeSegments.all (fun k => !k.toList.all isKebabChar ||
      !(k.toList.filter (!· == '-')).getLast?.all pluralEndings.contains) = true := by decide
  have hk := List.all_eq_true.mp hall k hmem
  have hkebab : k.toList.all isKebabChar = true := List.all_eq_true.mpr hchars
  have hends : (k.toList.filter (!· == '-')).getLast?.all pluralEndings.contains = true := by
    cases hc : (k.toList.filter (!· == '-')).getLast? with
    | none => rfl
    | some c => exact List.contains_iff_mem.mpr (hlast hc)
  rw [hkebab, hends] at hk
  cases hk

end SchemaScaffold.Naming
