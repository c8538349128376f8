import SchemaScaffold.Proofs.Field.Grammar

/-!
One spelling for every field. The fields that a definition can give are told by what they hold: a
field name, and for an enum trimmed values without separators, for a reference the name of a model.
Each of them is written down in one way, and reading that gives the field back.
-/

namespace SchemaScaffold.Field

open Text Naming

/-! ## The fields that are read -/

/-- A value between commas: trimmed, and not empty. -/
structure IsValue (value : String) : Prop where
  nonempty : value ≠ ""
  trimmed : trim value.toList = value.toList
  comma : ',' ∉ value.toList
  colon : ':' ∉ value.toList

/-- What a field of a type holds: the values of an enum and the target of a reference. -/
inductive Holds : FieldType → Option (List String) → Option String → Prop
  | scalar {type : FieldType} : type ∈ FieldType.scalars → Holds type none none
  | enum {values : List String} : values ≠ [] → (∀ value ∈ values, IsValue value) →
      Holds .enum (some values) none
  | reference {target : String} : IsWord Char.isAlpha target → target ≠ uniqueModifier →
      Holds .reference none (some target)

/-- A field that a definition can give. -/
structure Expressible (f : Field) : Prop where
  name : IsWord Char.isLower f.name
  type : Holds f.type f.enumValues f.target

theorem isValue_trim {entry : String} (hne : String.ofList (trim entry.toList) ≠ "")
    (hentry : ',' ∉ entry.toList ∧ ':' ∉ entry.toList) :
    IsValue (String.ofList (trim entry.toList)) where
  nonempty := hne
  trimmed := by rw [String.toList_ofList, trim_trim]
  comma h := hentry.1 (mem_of_mem_trim (by simpa using h))
  colon h := hentry.2 (mem_of_mem_trim (by simpa using h))

/-- A type completes a field that holds nothing yet. -/
theorem TypeSpelling.Valid.holds {type : TypeSpelling} (h : type.Valid) {base : Field}
    (hvalues : base.enumValues = none) (htarget : base.target = none) :
    Holds (type.complete base).type (type.complete base).enumValues (type.complete base).target := by
  have hbase : ∀ kind ∈ FieldType.scalars, Holds kind base.enumValues base.target := by
    rw [hvalues, htarget]
    exact fun kind => .scalar
  cases type with
  | omitted => exact hbase .string (by decide)
  | modifier => exact hbase .string (by decide)
  | scalar token kind =>
    have hscalars : ∀ entry ∈ typeTokens, entry.2 ∈ FieldType.scalars := by decide
    exact hbase kind (hscalars _ h)
  | enum entries =>
    obtain ⟨hentries, hthere, -⟩ := h
    simp only [complete, htarget]
    refine .enum (values_ne_nil.mpr hthere) fun value hvalue => ?_
    obtain ⟨hmem, hne⟩ := List.mem_filter.mp hvalue
    obtain ⟨entry, hentry, rfl⟩ := List.mem_map.mp hmem
    exact isValue_trim (of_decide_eq_true hne) (hentries entry hentry)
  | reference target =>
    simp only [complete, hvalues]
    exact .reference h.1 h.2

theorem expressible_of_parse {raw : String} {f : Field} (h : parse raw = .ok f) : Expressible f := by
  obtain ⟨⟨name, optional, type⟩, hvalid, -, rfl⟩ := Spelling.exists_of_parse h
  rcases type with _ | ⟨type, mark, modifiers⟩
  · exact ⟨hvalid.1, .scalar (by decide : FieldType.string ∈ FieldType.scalars)⟩
  · have htype : type.Valid := hvalid.2 _ rfl
    refine ⟨?_, htype.holds rfl rfl⟩
    cases type <;> exact hvalid.1

/-! ## Writing a field down -/

/-- The type by its own name, with what it takes; a comma ends the values, so that they are never
taken for a modifier. -/
def typeText (f : Field) : String :=
  match f.type with
  | .enum => enumToken ++ ":" ++ ",".intercalate (f.enumValues.getD []) ++ ","
  | .reference => referencesToken ++ ":" ++ f.target.getD ""
  | type => type.name

/-- The canonical spelling of a field. -/
def canonical (f : Field) : String :=
  marked f.name f.nullable ++ ":" ++ f.typeText ++ if f.unique then ":" ++ uniqueModifier else ""

/-- The values of an enum, with a comma behind each, are read as they are. -/
theorem complete_values {values : List String} (h : ∀ value ∈ values, IsValue value) :
    ((values ++ [""]).map fun entry => String.ofList (trim entry.toList)).filter (· ≠ "") = values := by
  have hsame : (values.map fun entry => String.ofList (trim entry.toList)) = values := by
    conv_rhs => rw [← List.map_id values]
    exact List.map_congr_left fun value hvalue => by
      rw [(h value hvalue).trimmed, String.ofList_toList, id]
  have hkept : values.filter (· ≠ "") = values :=
    List.filter_eq_self.mpr fun value hvalue => by simpa using (h value hvalue).nonempty
  have hend : String.ofList (trim "".toList) = "" := by decide
  rw [List.map_append, hsame, List.filter_append, hkept, List.map_singleton, hend]
  simp

/-- With a comma at its end the text of the values is not the modifier. -/
theorem values_text {values : List String} (hne : values ≠ []) :
    ",".intercalate (values ++ [""]) = ",".intercalate values ++ "," ∧
      ",".intercalate (values ++ [""]) ≠ uniqueModifier := by
  have htext : ",".intercalate (values ++ [""]) = ",".intercalate values ++ "," := by
    rw [String.intercalate_append_of_ne_nil hne (by simp), String.intercalate_singleton,
      String.append_empty]
  exact ⟨htext, ne_modifier (by simp [htext])⟩

theorem valid_values {values : List String} (hne : values ≠ [])
    (h : ∀ value ∈ values, IsValue value) : (TypeSpelling.enum (values ++ [""])).Valid := by
  refine ⟨fun entry hentry => ?_, ?_, (values_text hne).2⟩
  · rcases List.mem_append.mp hentry with hvalue | hend
    · exact ⟨(h entry hvalue).comma, (h entry hvalue).colon⟩
    · rw [List.mem_singleton.mp hend]
      decide
  · rw [← values_ne_nil, complete_values h]
    exact hne

/-- The text of a scalar type is its name, which is a token for it. -/
theorem scalar_text {type : FieldType} (h : type ∈ FieldType.scalars) (f : Field)
    (htype : f.type = type) : f.typeText = type.name ∧ (type.name, type) ∈ typeTokens ∧
      type.name ≠ uniqueModifier := by
  have htokens : ∀ type ∈ FieldType.scalars, (type.name, type) ∈ typeTokens ∧
      type.name ≠ uniqueModifier := by
    decide
  refine ⟨?_, htokens type h⟩
  rw [typeText, htype]
  cases type with
  | enum => exact absurd h (by decide)
  | reference => exact absurd h (by decide)
  | _ => rfl

/-- Every field that can be given is completed by a type, whose segments are not the modifier. -/
theorem Expressible.exists_type {f : Field} (h : Expressible f) : ∃ type : TypeSpelling, type.Valid ∧
    uniqueModifier ∉ type.token :: type.arguments ∧
    f.typeText = ":".intercalate (type.token :: type.arguments) ∧
    type.complete { name := f.name, nullable := f.nullable, unique := f.unique } = f := by
  obtain ⟨name, type, nullable, unique, values, target⟩ := f
  obtain ⟨-, htype⟩ := h
  cases htype with
  | scalar hscalar =>
    obtain ⟨htext, htoken, hne⟩ := scalar_text hscalar
      { name, type, nullable, unique, enumValues := none, target := none } rfl
    refine ⟨.scalar type.name type, htoken, ?_, ?_, rfl⟩
    · exact fun hmem => hne (List.mem_singleton.mp hmem).symm
    · exact htext.trans String.intercalate_singleton.symm
  | @enum values hne hvalues =>
    obtain ⟨htext, hunique⟩ := values_text hne
    refine ⟨.enum (values ++ [""]), valid_values hne hvalues, ?_, ?_, ?_⟩
    · simp only [TypeSpelling.token, TypeSpelling.arguments, List.mem_cons, List.not_mem_nil, or_false,
        not_or]
      exact ⟨by decide, hunique.symm⟩
    · rw [TypeSpelling.token, TypeSpelling.arguments, htext, String.intercalate_cons_cons,
        String.intercalate_singleton, ← String.append_assoc]
      rfl
    · rw [TypeSpelling.complete, complete_values hvalues]
  | @reference target hword hne =>
    refine ⟨.reference target, ⟨hword, hne⟩, ?_, ?_, rfl⟩
    · simp only [TypeSpelling.token, TypeSpelling.arguments, List.mem_cons, List.not_mem_nil, or_false,
        not_or]
      exact ⟨by decide, hne.symm⟩
    · rw [TypeSpelling.token, TypeSpelling.arguments, String.intercalate_cons_cons,
        String.intercalate_singleton]
      rfl

/-! ## Reading it again -/

theorem Expressible.parse_canonical {f : Field} (h : Expressible f) : parse f.canonical = .ok f := by
  obtain ⟨type, hvalid, hunique, htext, hcomplete⟩ := h.exists_type
  let x : Spelling := {
    name := f.name
    optional := f.nullable
    type := some (type, false, if f.unique then 1 else 0) }
  have hx : x.Valid := ⟨h.name, fun _ hmem => Option.some.inj hmem ▸ hvalid⟩
  have hplain : marked type.token false = type.token := by simp [marked]
  have hothers : x.others = (type.token :: type.arguments) ++
      List.replicate (if f.unique then 1 else 0) uniqueModifier := by
    rw [← hplain]
    rfl
  have hcanonical : x.text = f.canonical := by
    have hfront : ":".intercalate (marked f.name f.nullable :: type.token :: type.arguments) =
        marked f.name f.nullable ++ ":" ++ f.typeText := by
      rw [String.intercalate_cons_cons, htext]
    rw [Spelling.text, hothers, canonical, ← hfront]
    cases f.unique with
    | false => simp [x]
    | true =>
      rw [if_pos rfl, if_pos rfl, List.replicate_one, ← List.cons_append,
        String.intercalate_append_of_ne_nil (by simp) (by simp), String.intercalate_singleton,
        String.append_assoc]
  -- the modifier is found only if it was added at the end
  have hflag : decide (uniqueModifier ∈ x.others) = f.unique := by
    rw [hothers]
    cases f.unique with
    | false => simpa using hunique
    | true => simp
  have hfield : x.field = f := by
    rw [Spelling.field, hflag]
    simpa [x] using hcomplete
  rw [← hcanonical, Spelling.parse_text hx, hfield]

/-- Whatever a definition was read as, its canonical spelling is read as the same field; and the fields
that are read are exactly those that hold what their types ask for. -/
theorem canonical_expresses : (∀ raw f, parse raw = .ok f → parse f.canonical = .ok f) ∧
    ∀ f, (∃ raw, parse raw = .ok f) ↔ Expressible f := by
  refine ⟨fun raw f h => (expressible_of_parse h).parse_canonical, fun f => ⟨?_, ?_⟩⟩
  · rintro ⟨raw, h⟩
    exact expressible_of_parse h
  · exact fun h => ⟨f.canonical, h.parse_canonical⟩

/-- A name with a line break, a mark on the type, blanks around a value, and the modifier as a value. -/
theorem canonical_expresses_kind :
    let f : Field := {
      name := "kind\n", type := .enum, nullable := true, unique := true
      enumValues := some ["a", "unique"] }
    parse "kind\n:enum?: a ,,unique:unique" = .ok f ∧
      f.canonical = "kind\n?:enum:a,unique,:unique" ∧
      parse "kind\n?:enum:a,unique,:unique" = .ok f := by
  intro f
  have hread : parse "kind\n:enum?: a ,,unique:unique" = .ok f := by decide
  have htext : f.canonical = "kind\n?:enum:a,unique,:unique" := by decide
  exact ⟨hread, htext, htext ▸ canonical_expresses.1 _ _ hread⟩

end SchemaScaffold.Field
