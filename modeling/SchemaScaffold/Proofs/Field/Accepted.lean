import SchemaScaffold.Field.Parser
import SchemaScaffold.Proofs.Naming.Letters
import SchemaScaffold.Proofs.Outcome

/-!
What the field parser promises about the fields it lets through. Everything that a schema text is
made of rests on these few facts: the name is a field name, a reference has a model name as its
target, and only an enum has values.
-/

namespace SchemaScaffold.Field

open Text Naming

/-- A field as the parser lets it through. -/
structure Accepted (f : Field) : Prop where
  name : isFieldName f.name = true
  target : f.isReference = true → isModelName (f.target.getD "") = true
  values : f.isEnum = false → f.enumValues = none

theorem parseEnum_ok {raw : String} {base f : Field} {rest : List String}
    (h : parseEnum raw base rest = .ok f) :
    f.name = base.name ∧ f.isReference = false ∧ f.isEnum = true := by
  obtain ⟨-, h⟩ := guard_ok h
  obtain ⟨_, -, h⟩ := bind_ok h
  cases h
  exact ⟨rfl, rfl, rfl⟩

theorem parseReference_ok {raw : String} {base f : Field} {rest : List String}
    (h : parseReference raw base rest = .ok f) :
    f.name = base.name ∧ isModelName (f.target.getD "") = true ∧ f.enumValues = base.enumValues := by
  obtain ⟨-, h⟩ := guard_ok h
  obtain ⟨htarget, h⟩ := guard_ok h
  obtain ⟨_, -, h⟩ := bind_ok h
  cases h
  exact ⟨rfl, by simpa using htarget, rfl⟩

theorem parseScalar_ok {raw token : String} {base f : Field} {rest : List String}
    (h : parseScalar raw token base rest = .ok f) :
    f.name = base.name ∧ f.isReference = false ∧ f.enumValues = base.enumValues := by
  have hscalar : ∀ entry ∈ typeTokens, entry.2 ≠ .reference := by decide
  unfold parseScalar at h
  split at h
  · rename_i type htype
    obtain ⟨_, -, h⟩ := bind_ok h
    cases h
    exact ⟨rfl, by simpa [isReference] using hscalar _ (mem_of_lookup htype), rfl⟩
  · cases h

theorem parse_accepted {raw : String} {f : Field} (h : parse raw = .ok f) : Accepted f := by
  unfold parse at h
  obtain ⟨-, h⟩ := guard_ok h
  obtain ⟨hname, h⟩ := guard_ok h
  simp only [Bool.not_eq_true, Bool.not_eq_false'] at hname
  rcases ite_ok h with ⟨-, h⟩ | ⟨-, h⟩
  · obtain ⟨hn, hr, he⟩ := parseEnum_ok h
    exact ⟨hn ▸ hname, fun hr' => by simp [hr] at hr', fun he' => by simp [he] at he'⟩
  · rcases ite_ok h with ⟨-, h⟩ | ⟨-, h⟩
    · obtain ⟨hn, ht, hv⟩ := parseReference_ok h
      exact ⟨hn ▸ hname, fun _ => ht, fun _ => hv⟩
    · obtain ⟨hn, hr, hv⟩ := parseScalar_ok h
      exact ⟨hn ▸ hname, fun hr' => by simp [hr] at hr', fun _ => hv⟩

theorem parseAll_accepted {raws : List String} {fields : List Field}
    (h : parseAll raws = .ok fields) : ∀ f ∈ fields, Accepted f := by
  intro f hf
  obtain ⟨raw, -, hraw⟩ := mapM_ok h f hf
  exact parse_accepted hraw

/-- A name that is a first letter, letters and digits, and at most one line break. -/
theorem chars_of_chomp {s : String} {c : Char} {cs : List Char} (h : (chomp s.toList).1 = c :: cs)
    (hc : c.isAlphanum = true) (hcs : cs.all Char.isAlphanum = true) :
    (∀ d ∈ s.toList, isNameChar d = true) ∧ ∃ rest, s.toList = c :: rest := by
  have hparts := chomp_append s.toList
  rw [h] at hparts
  refine ⟨fun d hd => ?_, cs ++ (chomp s.toList).2, hparts.symm⟩
  rw [← hparts, List.mem_append, List.mem_cons] at hd
  rcases hd with (rfl | hd) | hd
  · exact isNameChar_of_isAlphanum hc
  · exact isNameChar_of_isAlphanum (List.all_eq_true.mp hcs d hd)
  · rw [mem_chomp_snd hd]
    decide

/-- The characters of a field name, and the small letter that it starts with. -/
theorem isFieldName_chars {s : String} (h : isFieldName s = true) :
    (∀ c ∈ s.toList, isNameChar c = true) ∧ ∃ c rest, c.isLower = true ∧ s.toList = c :: rest := by
  unfold isFieldName at h
  split at h
  · cases h
  · rename_i c cs hname
    obtain ⟨hc, hcs⟩ := Bool.and_eq_true_iff.mp h
    obtain ⟨hchars, rest, hrest⟩ :=
      chars_of_chomp hname (by simp [isAlphanum_eq, hc]) hcs
    exact ⟨hchars, c, rest, hc, hrest⟩

/-- The characters of a model name, and the letter that it starts with. -/
theorem isModelName_letter {s : String} (h : isModelName s = true) :
    (∀ c ∈ s.toList, isNameChar c = true) ∧ ∃ c rest, c.isAlpha = true ∧ s.toList = c :: rest := by
  unfold isModelName at h
  split at h
  · cases h
  · rename_i c cs hname
    obtain ⟨hc, hcs⟩ := Bool.and_eq_true_iff.mp h
    obtain ⟨hchars, rest, hrest⟩ := chars_of_chomp hname (by simp [Char.isAlphanum, hc]) hcs
    exact ⟨hchars, c, rest, hc, hrest⟩

theorem isModelName_chars {s : String} (h : isModelName s = true) :
    ∀ c ∈ s.toList, isNameChar c = true :=
  (isModelName_letter h).1

end SchemaScaffold.Field

namespace SchemaScaffold.Naming

/-! ## Model names -/

/-- A name that is let through has the form of a model name. -/
theorem validateModelName_form {name : String} (h : validateModelName name = .ok ()) :
    isModelName name = true := by
  unfold validateModelName at h
  rcases ite_ok h with ⟨-, h⟩ | ⟨-, h⟩
  · cases h
  · rcases ite_ok h with ⟨-, h⟩ | ⟨hname, -⟩
    · cases h
    · simpa using hname

theorem validateModelName_chars {name : String} (h : validateModelName name = .ok ()) :
    ∀ c ∈ name.toList, isNameChar c = true :=
  Field.isModelName_chars (validateModelName_form h)

end SchemaScaffold.Naming
