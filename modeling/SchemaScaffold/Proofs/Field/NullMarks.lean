import SchemaScaffold.Proofs.Field.Grammar

/-!
The mark of a nullable field. It may stand behind the name or behind the type, and wherever it stands
the field is nullable. What is read is the same in both places but for one case: behind the modifier
in the place of the type the mark hides the modifier, so the field is no longer unique.
-/

namespace SchemaScaffold.Field

open Text

/-- Two definitions that give the same field, or both none. -/
def ReadAlike (a b : String) : Prop :=
  (∃ f, parse a = .ok f ∧ parse b = .ok f) ∨ ∃ e e', parse a = .error e ∧ parse b = .error e'

theorem readAlike_iff {a b : String} :
    ReadAlike a b ↔ ∀ f, parse a = .ok f ↔ parse b = .ok f := by
  constructor
  · rintro (⟨g, ha, hb⟩ | ⟨e, e', ha, hb⟩) f
    · rw [ha, hb]
    · rw [ha, hb]
      exact iff_of_false nofun nofun
  · intro h
    cases ha : parse a with
    | ok f => exact .inl ⟨f, ha, (h f).mp ha⟩
    | error e =>
      cases hb : parse b with
      | error e' => exact .inr ⟨e, e', ha, hb⟩
      | ok f =>
        have hf := (h f).mpr hb
        rw [ha] at hf
        cases hf

/-! ## Definitions with a type -/

/-- What follows the type is a number of further segments. -/
theorem exists_segments {rest : String} (h : rest = "" ∨ ∃ more, rest = ":" ++ more) :
    ∃ segments : List String, (∀ segment ∈ segments, ':' ∉ segment.toList) ∧
      (segments = [] ↔ rest = "") ∧
      ∀ name type, name ++ ":" ++ type ++ rest = ":".intercalate (name :: type :: segments) := by
  rcases h with rfl | ⟨more, rfl⟩
  · refine ⟨[], by simp, by simp, fun name type => ?_⟩
    rw [String.append_empty, String.intercalate_cons_cons, String.intercalate_singleton]
  · obtain ⟨hne, hsegments, -⟩ := splitAt_eq_iff.mp (Eq.refl (splitAt ':' more))
    refine ⟨splitAt ':' more, hsegments, by simp [hne], fun name type => ?_⟩
    have hparts : ":".intercalate ([name, type] ++ splitAt ':' more) =
        name ++ ":" ++ type ++ ":" ++ more := by
      rw [String.intercalate_append_of_ne_nil (by simp) hne, intercalate_splitAt (by decide),
        String.intercalate_cons_cons, String.intercalate_singleton]
    rw [← String.append_assoc, ← hparts]
    rfl

/-- A segment without a mark at its end. -/
structure IsSegment (s : String) : Prop where
  colon : ':' ∉ s.toList
  unmarked : s.toList.getLast? ≠ some '?'

/-- A definition with a type is read by its segments, and a mark on either of the first two makes the
field nullable. Only the text of the type as it is written, with its mark, counts as a modifier. -/
theorem parse_marked_iff {name type : String} (hname : IsSegment name) (htype : IsSegment type)
    {segments : List String} (hsegments : ∀ segment ∈ segments, ':' ∉ segment.toList)
    (first second : Bool) {f : Field} :
    parse (":".intercalate (marked name first :: marked type second :: segments)) = .ok f ↔
      IsWord Char.isLower name ∧ ∃ spelling : TypeSpelling, ∃ count, spelling.Valid ∧
        spelling.token = type ∧
        segments = spelling.arguments ++ List.replicate count uniqueModifier ∧
        f = spelling.complete {
          name, nullable := first || second
          unique := (marked type second :: segments).contains uniqueModifier } := by
  have hsplit : splitAt ':' (":".intercalate (marked name first :: marked type second :: segments)) =
      marked name first :: marked type second :: segments := by
    refine splitAt_eq_iff.mpr ⟨List.cons_ne_nil _ _, ?_, by rw [String.toList_intercalate]; rfl⟩
    exact List.forall_mem_cons.mpr ⟨marked_colon hname.colon first,
      List.forall_mem_cons.mpr ⟨marked_colon htype.colon second, hsegments⟩⟩
  rw [parse_iff hsplit, List.headD_cons, List.tail_cons, stripNullable_mark hname.unmarked,
    stripNullable_mark htype.unmarked, parseTyped_iff hsegments]

/-- The modifier in the place of the type takes nothing, so only more modifiers may follow it. -/
theorem modifier_iff {segments : List String} (h : uniqueModifier ∉ segments) {base f : Field} :
    (∃ spelling : TypeSpelling, ∃ count, spelling.Valid ∧ spelling.token = uniqueModifier ∧
      segments = spelling.arguments ++ List.replicate count uniqueModifier ∧
      f = spelling.complete base) ↔ segments = [] ∧ f = { base with type := .string } := by
  constructor
  · rintro ⟨spelling, count, hvalid, htoken, hsegments, hf⟩
    cases spelling with
    | omitted => exact absurd htoken (by decide)
    | enum entries => exact absurd htoken (by decide : enumToken ≠ uniqueModifier)
    | reference target => exact absurd htoken (by decide : referencesToken ≠ uniqueModifier)
    | scalar token type =>
      have hnone : ∀ entry ∈ typeTokens, entry.1 ≠ uniqueModifier := by decide
      exact absurd htoken (hnone _ hvalid)
    | modifier =>
      rcases count with _ | count
      · exact ⟨hsegments, hf⟩
      · rw [hsegments] at h
        exact absurd (List.mem_replicate.mpr ⟨Nat.succ_ne_zero count, rfl⟩) h
  · rintro ⟨rfl, rfl⟩
    exact ⟨.modifier, 0, trivial, rfl, rfl, rfl⟩

/-! ## One mark in two places -/

variable {name type : String} {segments : List String}

theorem marked_ne_modifier (type : String) : marked type true ≠ uniqueModifier :=
  ne_modifier (by simp [marked])

/-- The modifier is found alike if the type is another, or if it stands behind the type as well. -/
theorem contains_marked (h : type ≠ uniqueModifier ∨ uniqueModifier ∈ segments) :
    (marked type false :: segments).contains uniqueModifier =
      (marked type true :: segments).contains uniqueModifier := by
  have hplain : marked type false = type := by simp [marked]
  rcases h with hne | hmem
  · rw [hplain, List.contains_cons, List.contains_cons, beq_false_of_ne hne.symm,
      beq_false_of_ne (marked_ne_modifier type).symm]
  · rw [List.contains_cons, List.contains_cons, List.contains_iff_mem.mpr hmem, Bool.or_true,
      Bool.or_true]

/-- The mark may stand behind the name or behind the type: a definition is read alike in both ways,
unless the type is the modifier, with nothing behind it and a field name in front. There the mark
makes the modifier unreadable, and the field is not unique. -/
theorem readAlike_mark_iff (hname : IsSegment name) (htype : IsSegment type) {rest : String}
    (hrest : rest = "" ∨ ∃ more, rest = ":" ++ more) :
    ReadAlike (name ++ "?:" ++ type ++ rest) (name ++ ":" ++ type ++ "?" ++ rest) ↔
      ¬ (isFieldName name = true ∧ type = uniqueModifier ∧ rest = "") := by
  obtain ⟨segments, hsegments, hnil, hjoin⟩ := exists_segments hrest
  have hfirst : name ++ "?:" ++ type ++ rest =
      ":".intercalate (marked name true :: marked type false :: segments) := by
    rw [← hjoin]
    simp [marked, ← String.toList_inj]
  have hsecond : name ++ ":" ++ type ++ "?" ++ rest =
      ":".intercalate (marked name false :: marked type true :: segments) := by
    rw [← hjoin]
    simp [marked, ← String.toList_inj]
  rw [hfirst, hsecond, readAlike_iff, ← hnil, isFieldName_iff]
  simp only [parse_marked_iff hname htype hsegments]
  by_cases hsame : type ≠ uniqueModifier ∨ uniqueModifier ∈ segments
  · rw [contains_marked hsame]
    refine iff_of_true (fun _ => Iff.rfl) ?_
    rintro ⟨-, hunique, hnone⟩
    rcases hsame with hne | hmem
    · exact hne hunique
    · rw [hnone] at hmem
      cases hmem
  · -- the modifier is read behind the first mark, and not behind the second
    obtain ⟨hunique, hnone⟩ := not_or.mp hsame
    obtain rfl : type = uniqueModifier := not_not.mp hunique
    have hread : (marked uniqueModifier false :: segments).contains uniqueModifier = true := by
      simp [marked]
    have hhidden : (marked uniqueModifier true :: segments).contains uniqueModifier = false := by
      simpa [(marked_ne_modifier uniqueModifier).symm] using hnone
    simp only [hread, hhidden, modifier_iff hnone]
    constructor
    · rintro h ⟨hword, -, hnil⟩
      obtain ⟨-, -, hfields⟩ := (h _).mp ⟨hword, hnil, rfl⟩
      cases congrArg Field.unique hfields
    · intro h f
      have hrefused : ∀ g : Field, ¬ (IsWord Char.isLower name ∧ segments = [] ∧ f = g) := by
        rintro g ⟨hword, hnil, -⟩
        exact h ⟨hword, trivial, hnil⟩
      exact iff_of_false (hrefused _) (hrefused _)

/-- An enum that is unique, with its mark in either place. -/
theorem readAlike_mark_iff_enum : IsSegment "kind" ∧ IsSegment "enum" ∧
    (":a,b:unique" = "" ∨ ∃ more, ":a,b:unique" = ":" ++ more) ∧
    (ReadAlike ("kind" ++ "?:" ++ "enum" ++ ":a,b:unique")
        ("kind" ++ ":" ++ "enum" ++ "?" ++ ":a,b:unique") ↔
      ¬ (isFieldName "kind" = true ∧ "enum" = uniqueModifier ∧ ":a,b:unique" = "")) := by
  have hname : IsSegment "kind" := ⟨by decide, by decide⟩
  have htype : IsSegment "enum" := ⟨by decide, by decide⟩
  have hrest : ":a,b:unique" = "" ∨ ∃ more, ":a,b:unique" = ":" ++ more :=
    .inr ⟨"a,b:unique", by decide⟩
  exact ⟨hname, htype, hrest, readAlike_mark_iff hname htype hrest⟩

/-- Behind the modifier the mark costs the field its modifier. -/
theorem mark_hides_modifier :
    parse "email?:unique" = .ok { name := "email", nullable := true, unique := true } ∧
      parse "email:unique?" = .ok { name := "email", nullable := true, unique := false } ∧
      ¬ ReadAlike "email?:unique" "email:unique?" := by
  have hfirst : parse "email?:unique" = .ok { name := "email", nullable := true, unique := true } := by
    decide
  have hsecond : parse "email:unique?" = .ok { name := "email", nullable := true } := by decide
  refine ⟨hfirst, hsecond, fun h => ?_⟩
  have hsame := (readAlike_iff.mp h _).mp hfirst
  rw [hsecond] at hsame
  cases hsame

end SchemaScaffold.Field
