import SchemaScaffold.Proofs.Field.Accepted
import SchemaScaffold.Proofs.Text.Splitting

/-!
The grammar of field definitions. A definition is spelled as segments between colons: the name, the
type, what the type takes, and modifiers; a question mark may follow the name and the type. Parsing
is shown to accept exactly what is so spelled, and to give the field that the spelling stands for.
-/

namespace SchemaScaffold.Field

open Text Naming

/-! ## Spellings -/

/-- A first letter of a kind, then letters and digits; one line break may end it. -/
def IsWord (first : Char → Bool) (s : String) : Prop :=
  ∃ c cs, first c = true ∧ (∀ d ∈ cs, d.isAlphanum = true) ∧
    (s.toList = c :: cs ∨ s.toList = c :: cs ++ ['\n'])

/-- The type of a definition, with what it takes. -/
inductive TypeSpelling
  /-- The segment is empty. -/
  | omitted
  /-- The modifier stands where the type would be. -/
  | modifier
  | scalar (token : String) (type : FieldType)
  | enum (entries : List String)
  | reference (target : String)
  deriving Repr, DecidableEq

namespace TypeSpelling

def token : TypeSpelling → String
  | .omitted => ""
  | .modifier => uniqueModifier
  | .scalar token _ => token
  | .enum _ => enumToken
  | .reference _ => referencesToken

/-- The segments that have to follow the type. -/
def arguments : TypeSpelling → List String
  | .enum entries => [",".intercalate entries]
  | .reference target => [target]
  | _ => []

def Valid : TypeSpelling → Prop
  | .omitted | .modifier => True
  | .scalar token type => (token, type) ∈ typeTokens
  | .enum entries => (∀ entry ∈ entries, ',' ∉ entry.toList ∧ ':' ∉ entry.toList) ∧
      (∃ entry ∈ entries, ∃ c ∈ entry.toList, isBlank c = false) ∧
      ",".intercalate entries ≠ uniqueModifier
  | .reference target => IsWord Char.isAlpha target ∧ target ≠ uniqueModifier

/-- Completes a field by its type. -/
def complete (base : Field) : TypeSpelling → Field
  | .omitted | .modifier => { base with type := .string }
  | .scalar _ type => { base with type }
  | .enum entries =>
    let values := (entries.map fun entry => String.ofList (trim entry.toList)).filter (· ≠ "")
    { base with type := .enum, enumValues := some values }
  | .reference target => { base with type := .reference, target := some target }

end TypeSpelling

/-- A definition as it is written: the name, and the type with the modifiers after it. The two flags
tell whether a question mark follows. -/
structure Spelling where
  name : String
  optional : Bool
  type : Option (TypeSpelling × Bool × Nat)
  deriving Repr, DecidableEq

def marked (s : String) (optional : Bool) : String := s ++ if optional then "?" else ""

namespace Spelling

/-- The segments after the name. -/
def others (x : Spelling) : List String :=
  match x.type with
  | none => []
  | some (type, optional, modifiers) =>
    marked type.token optional :: type.arguments ++ List.replicate modifiers uniqueModifier

def text (x : Spelling) : String := ":".intercalate (marked x.name x.optional :: x.others)

def Valid (x : Spelling) : Prop :=
  IsWord Char.isLower x.name ∧ ∀ type ∈ x.type, type.1.Valid

/-- The field that the definition stands for. -/
def field (x : Spelling) : Field :=
  let base : Field := {
    name := x.name
    nullable := x.optional || x.type.any (·.2.1)
    unique := decide (uniqueModifier ∈ x.others) }
  x.type.elim base fun type => type.1.complete base

end Spelling

/-! ## Segments -/

/-- What stands before a final line break tells whether a text is a word. -/
theorem isWord_iff {first : Char → Bool} (hfirst : first '\n' = false) {s : String} :
    IsWord first s ↔ (match (chomp s.toList).1 with
      | [] => false
      | c :: cs => first c && cs.all Char.isAlphanum) = true := by
  constructor
  · rintro ⟨c, cs, hc, hcs, hs⟩
    have hbreak : '\n' ∉ c :: cs := by
      intro hmem
      rcases List.mem_cons.mp hmem with rfl | hmem
      · rw [hfirst] at hc
        cases hc
      · exact absurd (hcs _ hmem) (by decide)
    have hchomp : (chomp s.toList).1 = c :: cs := by
      rcases hs with hs | hs
      · rw [hs, chomp_eq hbreak]
      · rw [hs, chomp_concat]
    rw [hchomp]
    exact Bool.and_eq_true_iff.mpr ⟨hc, List.all_eq_true.mpr hcs⟩
  · intro h
    split at h
    · cases h
    · rename_i c cs hname
      obtain ⟨hc, hcs⟩ := Bool.and_eq_true_iff.mp h
      have hparts := chomp_append s.toList
      refine ⟨c, cs, hc, List.all_eq_true.mp hcs, ?_⟩
      rw [hname] at hparts
      rcases chomp_snd s.toList with hend | hend
      · rw [hend, List.append_nil] at hparts
        exact .inl hparts.symm
      · rw [hend] at hparts
        exact .inr hparts.symm

theorem isFieldName_iff {s : String} : isFieldName s = true ↔ IsWord Char.isLower s :=
  (isWord_iff (by decide)).symm

theorem isModelName_iff {s : String} : isModelName s = true ↔ IsWord Char.isAlpha s :=
  (isWord_iff (by decide)).symm

theorem IsWord.ne_empty {first : Char → Bool} {s : String} (h : IsWord first s) : s ≠ "" := by
  rintro rfl
  obtain ⟨c, cs, -, -, hs | hs⟩ := h <;> cases hs

/-- The mark is all that is taken off a segment. -/
theorem marked_stripNullable (segment : String) :
    marked (stripNullable segment).1 (stripNullable segment).2 = segment := by
  unfold stripNullable marked
  split
  · rename_i hlast
    obtain ⟨cs, hcs⟩ := List.getLast?_eq_some_iff.mp (by simpa using hlast)
    apply String.toList_inj.mp
    simp [hcs]
  · simp

theorem stripNullable_mark {s : String} (h : s.toList.getLast? ≠ some '?') (optional : Bool) :
    stripNullable (marked s optional) = (s, optional) := by
  unfold stripNullable marked
  cases optional with
  | true => simp
  | false => simpa using h

theorem stripNullable_marked {s : String} (h : '?' ∉ s.toList) (optional : Bool) :
    stripNullable (marked s optional) = (s, optional) :=
  stripNullable_mark (fun hlast => h (List.mem_of_getLast? hlast)) optional

/-- A text with another last character is not the modifier. -/
theorem ne_modifier {s : String} (h : s.toList.getLast? ≠ some 'e') : s ≠ uniqueModifier := by
  rintro rfl
  exact h (by decide)

theorem checkModifiers_iff {raw : String} {modifiers : List String} :
    checkModifiers raw modifiers = .ok () ↔
      ∃ count, modifiers = List.replicate count uniqueModifier := by
  unfold checkModifiers
  constructor
  · intro h
    split at h
    · cases h
    · rename_i hnone
      refine ⟨modifiers.length, List.eq_replicate_iff.mpr ⟨rfl, fun m hm => ?_⟩⟩
      simpa using List.find?_eq_none.mp hnone m hm
  · rintro ⟨count, rfl⟩
    have hnone : (List.replicate count uniqueModifier).find? (· != uniqueModifier) = none := by simp
    rw [hnone]

/-- The values are the trimmed entries that are not blank. -/
theorem parseValues_intercalate {entries : List String} (hne : entries ≠ [])
    (h : ∀ entry ∈ entries, ',' ∉ entry.toList) : parseValues (",".intercalate entries) =
      (entries.map fun entry => String.ofList (trim entry.toList)).filter (· ≠ "") := by
  have hsplit : split (· == ',') (",".intercalate entries).toList = entries.map String.toList := by
    rw [String.toList_intercalate]
    refine split_intercalate (by simpa using hne) fun piece hpiece => ?_
    obtain ⟨entry, hentry, rfl⟩ := List.mem_map.mp hpiece
    exact h entry hentry
  rw [parseValues, hsplit]
  clear hsplit hne h
  induction entries with
  | nil => rfl
  | cons entry entries ih =>
    by_cases hblank : trim entry.toList = []
    · simpa [hblank] using ih
    · have hnot : String.ofList (trim entry.toList) ≠ "" := by
        intro he
        exact hblank (by simpa using congrArg String.toList he)
      simpa [hblank, hnot] using ih

/-- A value is left if an entry has a character that is not blank. -/
theorem values_ne_nil {entries : List String} :
    (entries.map fun entry => String.ofList (trim entry.toList)).filter (· ≠ "") ≠ [] ↔
      ∃ entry ∈ entries, ∃ c ∈ entry.toList, isBlank c = false := by
  have hentry : ∀ entry : String, String.ofList (trim entry.toList) ≠ "" ↔
      ∃ c ∈ entry.toList, isBlank c = false := by
    intro entry
    rw [ne_eq, ← String.toList_inj, String.toList_ofList, String.toList_empty, trim_eq_nil]
    simp
  simp only [ne_eq, List.filter_eq_nil_iff, List.forall_mem_map, decide_eq_true_eq, ← hentry]
  simp

/-- A segment is spelled by the entries between its commas. -/
theorem exists_entries {segment : String} (hcolon : ':' ∉ segment.toList) :
    ∃ entries : List String, entries ≠ [] ∧ ",".intercalate entries = segment ∧
      ∀ entry ∈ entries, ',' ∉ entry.toList ∧ ':' ∉ entry.toList := by
  obtain ⟨hne, hcomma, -⟩ := splitAt_eq_iff.mp (Eq.refl (splitAt ',' segment))
  refine ⟨splitAt ',' segment, hne, intercalate_splitAt (by decide) segment, fun entry hentry =>
    ⟨hcomma entry hentry, fun hmem => ?_⟩⟩
  obtain ⟨piece, hpiece, rfl⟩ := List.mem_map.mp hentry
  exact hcolon (mem_of_mem_split hpiece (by simpa using hmem)).1

/-! ## Reading by type -/

/-- An enum is read from one segment of values, of which at least one has to be there. -/
theorem parseEnum_iff {raw : String} {base f : Field} {rest : List String}
    (hcolon : ∀ segment ∈ rest, ':' ∉ segment.toList) : parseEnum raw base rest = .ok f ↔
      ∃ entries count, (TypeSpelling.enum entries).Valid ∧
        rest = ",".intercalate entries :: List.replicate count uniqueModifier ∧
        f = (TypeSpelling.enum entries).complete base := by
  constructor
  · intro h
    obtain ⟨hvalues, h⟩ := guard_ok h
    obtain ⟨_, hmodifiers, h⟩ := bind_ok h
    cases h
    obtain ⟨count, hcount⟩ := checkModifiers_iff.mp hmodifiers
    -- the modifier in place of the values counts as no values, so the segment is not the modifier
    have hunique : ¬ (rest.headD "" == uniqueModifier) = true := by
      intro he
      rw [if_pos he] at hvalues
      exact hvalues rfl
    rw [if_neg hunique] at hvalues ⊢
    cases rest with
    | nil => exact absurd (by decide) hvalues
    | cons segment rest =>
      obtain ⟨entries, hne, rfl, hentries⟩ := exists_entries (hcolon segment (by simp))
      rw [List.headD_cons] at hvalues hunique ⊢
      rw [parseValues_intercalate hne fun entry hentry => (hentries entry hentry).1] at hvalues ⊢
      refine ⟨entries, count, ⟨hentries, values_ne_nil.mp (by simpa using hvalues), ?_⟩, ?_, rfl⟩
      · simpa using hunique
      · rw [← hcount]
        rfl
  · rintro ⟨entries, count, ⟨hentries, hthere, hunique⟩, rfl, rfl⟩
    have hmodifiers : checkModifiers raw (List.replicate count uniqueModifier) = .ok () :=
      checkModifiers_iff.mpr ⟨count, rfl⟩
    have hne : entries ≠ [] := by
      rintro rfl
      obtain ⟨entry, hentry, -⟩ := hthere
      cases hentry
    have hvalues := parseValues_intercalate hne fun entry hentry => (hentries entry hentry).1
    have hleft := values_ne_nil.mpr hthere
    rw [← hvalues] at hleft
    have hnot : ¬ (",".intercalate entries == uniqueModifier) = true := by
      simpa using hunique
    unfold parseEnum
    dsimp only
    rw [List.tail_cons, hmodifiers, List.headD_cons, if_neg hnot, if_neg (by simpa using hleft),
      TypeSpelling.complete, ← hvalues]
    rfl

theorem parseReference_iff {raw : String} {base f : Field} {rest : List String} :
    parseReference raw base rest = .ok f ↔
      ∃ target count, (TypeSpelling.reference target).Valid ∧
        rest = target :: List.replicate count uniqueModifier ∧
        f = (TypeSpelling.reference target).complete base := by
  constructor
  · intro h
    obtain ⟨hthere, h⟩ := guard_ok h
    obtain ⟨hword, h⟩ := guard_ok h
    obtain ⟨_, hmodifiers, h⟩ := bind_ok h
    cases h
    obtain ⟨count, hcount⟩ := checkModifiers_iff.mp hmodifiers
    obtain ⟨hne, hunique⟩ : rest.headD "" ≠ "" ∧ rest.headD "" ≠ uniqueModifier := by
      simpa using hthere
    cases rest with
    | nil => exact absurd rfl hne
    | cons target rest =>
      refine ⟨target, count, ⟨isModelName_iff.mp (by simpa using hword), hunique⟩, ?_, rfl⟩
      rw [← hcount]
      rfl
  · rintro ⟨target, count, ⟨hword, hunique⟩, rfl, rfl⟩
    have hmodifiers : checkModifiers raw (List.replicate count uniqueModifier) = .ok () :=
      checkModifiers_iff.mpr ⟨count, rfl⟩
    simp only [parseReference, List.headD_cons, List.tail_cons, hmodifiers, isModelName_iff.mpr hword]
    simp [hword.ne_empty, hunique]
    rfl

theorem parseScalar_iff {raw token : String} {base f : Field} {rest : List String} :
    parseScalar raw token base rest = .ok f ↔
      ∃ type count, (token, type) ∈ typeTokens ∧ rest = List.replicate count uniqueModifier ∧
        f = { base with type } := by
  have honce : ∀ entry ∈ typeTokens, typeTokens.lookup entry.1 = some entry.2 := by decide
  unfold parseScalar
  constructor
  · intro h
    split at h
    · rename_i type htype
      obtain ⟨_, hmodifiers, h⟩ := bind_ok h
      cases h
      obtain ⟨count, hcount⟩ := checkModifiers_iff.mp hmodifiers
      exact ⟨type, count, mem_of_lookup htype, hcount, rfl⟩
    · cases h
  · rintro ⟨type, count, hmem, rfl, rfl⟩
    rw [honce _ hmem, checkModifiers_iff.mpr ⟨count, rfl⟩]
    rfl

/-- The type that a segment without its mark asks for. -/
def tokenOf (written : String) : String :=
  if written.isEmpty || written == uniqueModifier then FieldType.string.name else written

/-- Reads what follows the name. -/
def parseTyped (raw token : String) (base : Field) (rest : List String) : Except FieldError Field :=
  if token == enumToken then parseEnum raw base rest
  else if token == referencesToken then parseReference raw base rest
  else parseScalar raw token base rest

theorem typeTokens_apart : ∀ entry ∈ typeTokens, tokenOf entry.1 = entry.1 ∧
    entry.1 ≠ enumToken ∧ entry.1 ≠ referencesToken ∧ entry.1 ≠ "" ∧
    ∀ c ∈ entry.1.toList, c.isAlphanum = true := by
  have hall : ∀ entry ∈ typeTokens, tokenOf entry.1 = entry.1 ∧
      entry.1 ≠ enumToken ∧ entry.1 ≠ referencesToken ∧ entry.1 ≠ "" ∧
      entry.1.toList.all Char.isAlphanum = true := by
    decide
  simpa only [List.all_eq_true] using hall

/-- After the name comes a type with what it takes, and then modifiers only. -/
theorem parseTyped_iff {raw written : String} {base f : Field} {rest : List String}
    (hcolon : ∀ segment ∈ rest, ':' ∉ segment.toList) :
    parseTyped raw (tokenOf written) base rest = .ok f ↔ ∃ type : TypeSpelling, ∃ count,
      type.Valid ∧ type.token = written ∧
        rest = type.arguments ++ List.replicate count uniqueModifier ∧ f = type.complete base := by
  have hstring : ∀ type, (FieldType.string.name, type) ∈ typeTokens ↔ type = .string := by
    intro type
    cases type <;> decide
  have hscalar : ∀ token : String, token ≠ enumToken → token ≠ referencesToken →
      parseTyped raw token base rest = parseScalar raw token base rest := by
    intro token henum hreference
    rw [parseTyped, if_neg (by simpa using henum), if_neg (by simpa using hreference)]
  have hplain : parseTyped raw FieldType.string.name base rest = .ok f ↔
      ∃ count, rest = List.replicate count uniqueModifier ∧ f = { base with type := .string } := by
    rw [hscalar _ (by decide) (by decide), parseScalar_iff]
    constructor
    · rintro ⟨type, count, hmem, hrest, hf⟩
      exact ⟨count, hrest, (hstring type).mp hmem ▸ hf⟩
    · rintro ⟨count, hrest, hf⟩
      exact ⟨.string, count, (hstring _).mpr rfl, hrest, hf⟩
  constructor
  · intro h
    by_cases hempty : written = ""
    · rw [hempty] at h
      obtain ⟨count, hrest, hf⟩ := hplain.mp h
      exact ⟨.omitted, count, trivial, hempty.symm, hrest, hf⟩
    · by_cases hunique : written = uniqueModifier
      · rw [hunique] at h
        obtain ⟨count, hrest, hf⟩ := hplain.mp h
        exact ⟨.modifier, count, trivial, hunique.symm, hrest, hf⟩
      · rw [tokenOf, if_neg (by simp [hempty, hunique])] at h
        rcases ite_ok h with ⟨henum, h⟩ | ⟨henum, h⟩
        · obtain ⟨entries, count, hvalid, hrest, hf⟩ := (parseEnum_iff hcolon).mp h
          exact ⟨.enum entries, count, hvalid, (beq_iff_eq.mp henum).symm, hrest, hf⟩
        · rcases ite_ok h with ⟨hreference, h⟩ | ⟨hreference, h⟩
          · obtain ⟨target, count, hvalid, hrest, hf⟩ := parseReference_iff.mp h
            exact ⟨.reference target, count, hvalid, (beq_iff_eq.mp hreference).symm, hrest, hf⟩
          · obtain ⟨type, count, hmem, hrest, hf⟩ := parseScalar_iff.mp h
            exact ⟨.scalar written type, count, hmem, rfl, hrest, hf⟩
  · rintro ⟨type, count, hvalid, rfl, hrest, hf⟩
    cases type with
    | omitted => exact hplain.mpr ⟨count, hrest, hf⟩
    | modifier => exact hplain.mpr ⟨count, hrest, hf⟩
    | scalar token type =>
      obtain ⟨htoken, henum, hreference, -⟩ := typeTokens_apart _ hvalid
      rw [TypeSpelling.token, htoken, hscalar _ henum hreference]
      exact parseScalar_iff.mpr ⟨type, count, hvalid, hrest, hf⟩
    | enum entries => exact (parseEnum_iff hcolon).mpr ⟨entries, count, hvalid, hrest, hf⟩
    | reference target => exact parseReference_iff.mpr ⟨target, count, hvalid, hrest, hf⟩

/-- The parser reads the segments from left to right. -/
theorem parse_iff {raw first : String} {others : List String} {f : Field}
    (h : splitAt ':' raw = first :: others) : parse raw = .ok f ↔
      IsWord Char.isLower (stripNullable first).1 ∧
        parseTyped raw (tokenOf (stripNullable (others.headD "")).1)
          { name := (stripNullable first).1
            nullable := (stripNullable first).2 || (stripNullable (others.headD "")).2
            unique := others.contains uniqueModifier } others.tail = .ok f := by
  rw [← isFieldName_iff]
  unfold parse
  rw [h]
  constructor
  · intro hparse
    obtain ⟨-, hparse⟩ := guard_ok hparse
    obtain ⟨hname, hparse⟩ := guard_ok hparse
    rw [Bool.not_eq_true, Bool.not_eq_false'] at hname
    exact ⟨hname, hparse⟩
  · rintro ⟨hname, hparse⟩
    have hne : ¬ (stripNullable ((first :: others).headD "")).1.isEmpty = true := by
      intro hempty
      change isFieldName (stripNullable ((first :: others).headD "")).1 = true at hname
      rw [String.isEmpty_iff.mp hempty] at hname
      cases hname
    have hnot : ¬ (!isFieldName (stripNullable ((first :: others).headD "")).1) = true := by
      rw [Bool.not_eq_true, Bool.not_eq_false']
      exact hname
    dsimp only
    rw [if_neg hne, if_neg hnot]
    exact hparse

/-! ## Reading what is spelled -/

/-- A word has no other punctuation than its line break. -/
theorem IsWord.not_mem {first : Char → Bool} {s : String} (h : IsWord first s) {c : Char}
    (hfirst : first c = false) (hc : c.isAlphanum = false) (hbreak : c ≠ '\n') : c ∉ s.toList := by
  obtain ⟨d, cs, hd, hcs, hs⟩ := h
  have hnot : c ∉ d :: cs := by
    intro hmem
    rcases List.mem_cons.mp hmem with rfl | hmem
    · rw [hfirst] at hd
      cases hd
    · rw [hcs c hmem] at hc
      cases hc
  rcases hs with hs | hs <;> simpa [hs, hbreak] using hnot

theorem TypeSpelling.token_chars {type : TypeSpelling} (h : type.Valid) :
    ∀ c ∈ type.token.toList, c.isAlphanum = true := by
  have hown : ∀ token ∈ ["", uniqueModifier, enumToken, referencesToken],
      token.toList.all Char.isAlphanum = true := by
    decide
  have hchars : type.token ∈ ["", uniqueModifier, enumToken, referencesToken] →
      ∀ c ∈ type.token.toList, c.isAlphanum = true :=
    fun hmem => List.all_eq_true.mp (hown _ hmem)
  cases type with
  | scalar token type =>
    obtain ⟨-, -, -, -, hchars⟩ := typeTokens_apart _ h
    exact hchars
  | omitted | modifier | enum | reference => exact hchars (by simp [token])

theorem TypeSpelling.arguments_colon {type : TypeSpelling} (h : type.Valid) :
    ∀ segment ∈ type.arguments, ':' ∉ segment.toList := by
  cases type with
  | omitted => exact nofun
  | modifier => exact nofun
  | scalar token type => exact nofun
  | enum entries =>
    intro segment hsegment hmem
    cases List.mem_singleton.mp hsegment
    rw [String.toList_intercalate] at hmem
    rcases mem_intercalate hmem with hmem | ⟨piece, hpiece, hmem⟩
    · exact absurd hmem (by decide)
    · obtain ⟨entry, hentry, rfl⟩ := List.mem_map.mp hpiece
      exact (h.1 entry hentry).2 hmem
  | reference target =>
    intro segment hsegment
    cases List.mem_singleton.mp hsegment
    exact h.1.not_mem (by decide) (by decide) (by decide)

theorem marked_colon {s : String} (h : ':' ∉ s.toList) (optional : Bool) :
    ':' ∉ (marked s optional).toList := by
  cases optional <;> simpa [marked] using h

namespace Spelling

variable {x : Spelling}

theorem others_colon (h : x.Valid) : ∀ segment ∈ x.others, ':' ∉ segment.toList := by
  unfold others
  split
  · exact nofun
  · rename_i type optional modifiers htype
    have hvalid : type.Valid := h.2 _ htype
    intro segment hsegment
    rw [List.cons_append, List.mem_cons, List.mem_append] at hsegment
    rcases hsegment with rfl | hsegment | hsegment
    · refine marked_colon (fun hmem => ?_) optional
      exact absurd (TypeSpelling.token_chars hvalid _ hmem) (by decide)
    · exact TypeSpelling.arguments_colon hvalid segment hsegment
    · rw [List.eq_of_mem_replicate hsegment]
      decide

/-- The segments of a definition are those it was spelled with. -/
theorem splitAt_text (h : x.Valid) : splitAt ':' x.text = marked x.name x.optional :: x.others := by
  refine splitAt_eq_iff.mpr ⟨List.cons_ne_nil _ _, ?_, by rw [text, String.toList_intercalate]; rfl⟩
  intro segment hsegment
  rcases List.mem_cons.mp hsegment with rfl | hsegment
  · exact marked_colon (h.1.not_mem (by decide) (by decide) (by decide)) _
  · exact others_colon h segment hsegment

/-- A name of letters and digits keeps its mark apart. -/
theorem stripNullable_name (h : IsWord Char.isLower x.name) :
    stripNullable (marked x.name x.optional) = (x.name, x.optional) :=
  stripNullable_marked (h.not_mem (by decide) (by decide) (by decide)) _

/-- The field of a definition has all that its type needs. -/
theorem checked_field (h : x.Valid) : x.field.checked = .ok x.field := by
  have hgap : x.field.gap? = none := by
    obtain ⟨name, optional, type⟩ := x
    rcases type with _ | ⟨type, mark, modifiers⟩
    · rfl
    · have hvalid : type.Valid := h.2 _ rfl
      cases type with
      | omitted => rfl
      | modifier => rfl
      | scalar token type =>
        have hspecial : ∀ entry ∈ typeTokens, entry.2 ≠ .enum ∧ entry.2 ≠ .reference := by decide
        obtain ⟨henum, hreference⟩ := hspecial _ hvalid
        simp [field, TypeSpelling.complete, gap?, isEnum, isReference, henum, hreference]
      | enum entries =>
        have hvalues := values_ne_nil.mpr hvalid.2.1
        simp only [field, TypeSpelling.complete, gap?, isEnum, isReference, Option.elim_some]
        simpa using hvalues
      | reference target =>
        have htarget := hvalid.1.ne_empty
        simp [field, TypeSpelling.complete, gap?, isEnum, isReference, htarget]
  rw [checked, hgap]

/-- What is spelled is read as the field that it stands for. -/
theorem parse_text (h : x.Valid) : parse x.text = .ok x.field := by
  refine (parse_iff (splitAt_text h)).mpr ?_
  rw [stripNullable_name h.1]
  refine ⟨h.1, ?_⟩
  have hcolon := others_colon h
  obtain ⟨name, optional, type⟩ := x
  rcases type with _ | ⟨type, mark, modifiers⟩
  · refine (parseTyped_iff (by simp [others])).mpr ⟨.omitted, 0, trivial, rfl, rfl, ?_⟩
    simp [field, TypeSpelling.complete, stripNullable, others]
  · have hvalid : type.Valid := h.2 _ rfl
    have hmark : '?' ∉ type.token.toList := by
      intro hmem
      exact absurd (TypeSpelling.token_chars hvalid _ hmem) (by decide)
    simp only [others, List.cons_append, List.headD_cons, List.tail_cons] at hcolon ⊢
    rw [stripNullable_marked hmark]
    refine (parseTyped_iff fun segment hsegment => hcolon segment (List.mem_cons_of_mem _ hsegment)).mpr
      ⟨type, modifiers, hvalid, rfl, rfl, ?_⟩
    simp [field, others]

/-- What is read was spelled. -/
theorem exists_of_parse {raw : String} {f : Field} (h : parse raw = .ok f) :
    ∃ x : Spelling, x.Valid ∧ x.text = raw ∧ x.field = f := by
  obtain ⟨first, segments, hsplit⟩ := List.exists_cons_of_ne_nil
    (splitAt_eq_iff.mp (Eq.refl (splitAt ':' raw))).1
  obtain ⟨-, hcolon, -⟩ := splitAt_eq_iff.mp hsplit
  obtain ⟨hname, hparse⟩ := (parse_iff hsplit).mp h
  obtain ⟨type, count, hvalid, htoken, hrest, hf⟩ := (parseTyped_iff fun segment hsegment =>
    hcolon segment (List.mem_cons_of_mem _ (List.mem_of_mem_tail hsegment))).mp hparse
  have hraw : ":".intercalate (first :: segments) = raw :=
    hsplit ▸ intercalate_splitAt (by decide) raw
  cases segments with
  | nil =>
    -- a name alone is read as with an empty type, which completes it by the default
    have hnone : ∀ base : Field, type.complete base = { base with type := .string } := by
      cases type with
      | omitted => exact fun _ => rfl
      | modifier => exact fun _ => rfl
      | scalar token type =>
        obtain ⟨-, -, -, hne, -⟩ := typeTokens_apart _ hvalid
        exact absurd htoken hne
      | enum entries => exact absurd htoken (by decide : enumToken ≠ (stripNullable "").1)
      | reference target => exact absurd htoken (by decide : referencesToken ≠ (stripNullable "").1)
    refine ⟨⟨(stripNullable first).1, (stripNullable first).2, none⟩, ⟨hname, by simp⟩, ?_, ?_⟩
    · rw [text, marked_stripNullable]
      exact hraw
    · rw [hf, hnone]
      simp [field, others, stripNullable]
  | cons segment rest =>
    let x : Spelling := {
      name := (stripNullable first).1
      optional := (stripNullable first).2
      type := some (type, (stripNullable segment).2, count) }
    have hothers : x.others = segment :: rest := by
      rw [show x.others = marked type.token (stripNullable segment).2 ::
        (type.arguments ++ List.replicate count uniqueModifier) from rfl, htoken, ← hrest]
      exact congrArg (· :: rest) (marked_stripNullable segment)
    refine ⟨x, ⟨hname, by simpa [x] using hvalid⟩, ?_, ?_⟩
    · rw [text, marked_stripNullable, hothers]
      exact hraw
    · rw [hf, field, hothers]
      simp [x]

end Spelling

/-- A value is a part of its segment, so it holds no colon. -/
theorem values_colon {raw : String} {f : Field} (h : parse raw = .ok f) :
    ∀ value ∈ f.enumValues.getD [], ':' ∉ value.toList := by
  obtain ⟨⟨name, optional, type⟩, hvalid, -, rfl⟩ := Spelling.exists_of_parse h
  intro value hvalue hcolon
  rcases type with _ | ⟨type, mark, modifiers⟩
  · cases hvalue
  · have htype : type.Valid := hvalid.2 _ rfl
    cases type with
    | omitted => cases hvalue
    | modifier => cases hvalue
    | scalar token type => cases hvalue
    | reference target => cases hvalue
    | enum entries =>
      obtain ⟨entry, hentry, rfl⟩ := List.mem_map.mp (List.mem_filter.mp hvalue).1
      rw [String.toList_ofList] at hcolon
      exact (htype.1 entry hentry).2 (mem_of_mem_trim hcolon)

/-- A text is read as a field if and only if it spells one: a name, marked or not, and perhaps a
type, marked or not, with what it takes and any number of modifiers. -/
theorem parse_eq_ok_iff (raw : String) : (∀ f, parse raw = .ok f ↔
    ∃ x : Spelling, x.Valid ∧ x.text = raw ∧ x.field = f) ∧
    ∀ x : Spelling, x.Valid → x.field.checked = .ok x.field := by
  refine ⟨fun f => ⟨Spelling.exists_of_parse, ?_⟩, fun x h => Spelling.checked_field h⟩
  rintro ⟨x, hvalid, rfl, rfl⟩
  exact Spelling.parse_text hvalid

/-- An enum with two values, a blank entry between them, a mark and a modifier. -/
theorem parse_eq_ok_iff_status :
    parse "status?:enum: draft,,published:unique" = .ok {
      name := "status", type := .enum, nullable := true, unique := true
      enumValues := some ["draft", "published"] } := by
  let x : Spelling := {
    name := "status"
    optional := true
    type := some (.enum [" draft", "", "published"], false, 1) }
  have hname : IsWord Char.isLower "status" := isFieldName_iff.mp (by decide)
  have hvalues : (TypeSpelling.enum [" draft", "", "published"]).Valid :=
    ⟨by decide, ⟨"published", by decide, 'p', by decide, by decide⟩, by decide⟩
  have hvalid : x.Valid := ⟨hname, fun type htype => by
    cases htype
    exact hvalues⟩
  exact ((parse_eq_ok_iff _).1 _).mpr ⟨x, hvalid, by decide, by decide⟩

end SchemaScaffold.Field
