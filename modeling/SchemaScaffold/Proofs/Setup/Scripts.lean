import SchemaScaffold.Proofs.Json.Entries
import SchemaScaffold.Setup.PackageFile

/-!
Adding the scripts of the migration tool to a package. The package is extended: what it held stays in
its place, and only a script of the tool that was not given gets another value. The count that is
returned is the number of scripts that changed, and adding the scripts once more changes nothing.
-/

namespace SchemaScaffold.Setup

open Json

/-- The names of the scripts, in their order. -/
def scriptKeys : List (List UInt16) := scripts.map fun script => key script.1

theorem scriptKeys_nodup : scriptKeys.Nodup := by decide +kernel

/-- The scripts of a package, none if it has no entry for them. -/
def scriptsOf (package : Entries) : Entries :=
  match package.get? scriptsKey with
  | some (.record entries) => entries
  | _ => []

/-- How a record of scripts is extended. -/
structure Scripted (old new : Entries) (added : Nat) : Prop where
  /-- Every script keeps its place, and new ones come behind them in their own order. -/
  names : new.names = old.names ++ scriptKeys.filter (· ∉ old.names)
  /-- A script keeps its value, unless it is one of the tool's and not given. -/
  kept : ∀ {i : Nat} {k : List UInt16} {v : Value}, old[i]? = some (k, v) →
    k ∉ scriptKeys ∨ v.isGiven = true → new[i]? = some (k, v)
  given : ∀ script ∈ scripts, isGivenIn new script.1 = true
  /-- The places that differ are as many as were counted. -/
  counted : ∃ places : List Nat, places.Nodup ∧ places.length = added ∧
    ∀ i, i ∈ places ↔ new[i]? ≠ old[i]?

/-- How a package is extended by scripts. -/
structure Equipped (package new : Entries) (added : Nat) : Prop where
  /-- Every entry keeps its place, and the scripts come last if there were none. -/
  names : new.names = package.names ++ if scriptsKey ∈ package.names then [] else [scriptsKey]
  kept : ∀ {i : Nat} {k : List UInt16} {v : Value}, package[i]? = some (k, v) → k ≠ scriptsKey →
    new[i]? = some (k, v)
  scripts : ∃ entries, new.get? scriptsKey = some (.record entries) ∧
    Scripted (scriptsOf package) entries added

/-! ## The scripts -/

variable {entries : Entries}

/-- Scripts as the entries of a record. -/
def scriptEntries (scripts : List (String × String)) : Entries :=
  scripts.map fun script => (key script.1, .text (key script.2))

/-- The scripts with those that they lack. -/
def completed (entries : Entries) : Entries := entries.setAll (scriptEntries (missingScripts entries))

theorem names_missing (entries : Entries) :
    (scriptEntries (missingScripts entries)).names.Sublist scriptKeys := by
  rw [scriptEntries, Entries.names, List.map_map]
  exact List.filter_sublist.map _

theorem names_missing_nodup (entries : Entries) : (scriptEntries (missingScripts entries)).names.Nodup :=
  (names_missing entries).nodup scriptKeys_nodup

/-- What is missing is not given. -/
theorem missing_not_given {e : List UInt16 × Value} (he : e ∈ scriptEntries (missingScripts entries)) :
    (entries.get? e.1).any Value.isGiven = false ∧ e.2.isGiven = true := by
  obtain ⟨script, hscript, rfl⟩ := List.mem_map.mp he
  obtain ⟨hmem, hmissing⟩ := List.mem_filter.mp hscript
  refine ⟨by simpa [isGivenIn] using hmissing, ?_⟩
  have hall : scripts.all (fun script => (Value.text (key script.2)).isGiven) = true := by decide +kernel
  exact List.all_eq_true.mp hall script hmem

theorem isGivenIn_completed {script : String × String} (hscript : script ∈ scripts) :
    isGivenIn (completed entries) script.1 = true := by
  rw [isGivenIn, completed]
  by_cases hgiven : isGivenIn entries script.1 = true
  · have hnot : key script.1 ∉ (scriptEntries (missingScripts entries)).names := by
      intro hmem
      obtain ⟨e, he, hkey⟩ := List.mem_map.mp hmem
      have hmissing := (missing_not_given he).1
      rw [hkey] at hmissing
      rw [isGivenIn, hmissing] at hgiven
      cases hgiven
    rw [Entries.get?_setAll_of_not_mem hnot]
    exact hgiven
  · have hmem : (key script.1, .text (key script.2)) ∈ scriptEntries (missingScripts entries) :=
      List.mem_map_of_mem (List.mem_filter.mpr ⟨hscript, by simpa using hgiven⟩)
    rw [Entries.get?_setAll_of_mem (names_missing_nodup entries) hmem, Option.any_some]
    exact (missing_not_given hmem).2

/-- The scripts that a record has no entry for are missing in it. -/
theorem names_missing_filter (entries : Entries) :
    (scriptEntries (missingScripts entries)).names.filter (· ∉ entries.names) =
      scriptKeys.filter (· ∉ entries.names) := by
  have hnames : (scriptEntries (missingScripts entries)).names =
      (missingScripts entries).map fun script => key script.1 := List.map_map
  rw [hnames, missingScripts, scriptKeys, List.filter_map, List.filter_map, List.filter_filter]
  congr 1
  refine List.filter_congr fun script _ => ?_
  by_cases hmem : key script.1 ∈ entries.names
  · simp [hmem]
  · have hnone := Entries.get?_eq_none_iff.mpr hmem
    simp [hmem, isGivenIn, hnone]

theorem scripted_completed (entries : Entries) :
    Scripted entries (completed entries) (missingScripts entries).length where
  names := by
    rw [completed, Entries.names_setAll (names_missing_nodup entries), names_missing_filter]
  kept := by
    intro i k v hold hkeep
    by_contra hchanged
    rw [← hold] at hchanged
    obtain ⟨e, he, hplace⟩ := Entries.setAll_changed (names_missing_nodup entries) hchanged
    obtain ⟨w, hw, hpair⟩ := Option.map_eq_some_iff.mp (hplace.symm.trans hold)
    obtain ⟨rfl, rfl⟩ := Prod.mk.inj hpair
    have hmissing := (missing_not_given he).1
    rw [hw, Option.any_some] at hmissing
    rcases hkeep with hother | hgiven
    · exact hother ((names_missing entries).subset (List.mem_map_of_mem he))
    · rw [hmissing] at hgiven
      cases hgiven
  given script hscript := isGivenIn_completed hscript
  counted := by
    have hnew : ∀ e ∈ scriptEntries (missingScripts entries), entries.get? e.1 ≠ some e.2 := fun e he h => by
      obtain ⟨hold, hgiven⟩ := missing_not_given he
      rw [h, Option.any_some, hgiven] at hold
      cases hold
    obtain ⟨places, hnodup, hlength, hplaces⟩ := Entries.setAll_places (names_missing_nodup entries) hnew
    exact ⟨places, hnodup, by rw [hlength, scriptEntries, List.length_map], hplaces⟩

/-! ## The package -/

/-- Whether the scripts of a package are a record, if there are any. -/
def HasScripts (package : Entries) : Prop :=
  ∀ v, package.get? scriptsKey = some v → ∃ entries, v = .record entries

theorem addScripts_eq {package : Entries} (h : HasScripts package) :
    addScripts package = .ok (package.set scriptsKey (.record (completed (scriptsOf package))),
      (missingScripts (scriptsOf package)).length) := by
  have hfold (entries : Entries) : (missingScripts entries).foldl (fun entries script =>
      entries.set (key script.1) (.text (key script.2))) entries = completed entries := by
    rw [completed, Entries.setAll, scriptEntries, List.foldl_map]
  rw [addScripts, scriptsOf]
  cases hget : package.get? scriptsKey with
  | none =>
    rw [← hfold]
    rfl
  | some v =>
    obtain ⟨entries, rfl⟩ := h v hget
    rw [← hfold]
    rfl

/-- A package is extended by the scripts that it lacks. -/
theorem addScripts_equipped {package new : Entries} {added : Nat}
    (h : HasScripts package) (hadd : addScripts package = .ok (new, added)) :
    Equipped package new added := by
  rw [addScripts_eq h] at hadd
  cases hadd
  refine ⟨?_, ?_, _, Entries.get?_set_self, scripted_completed _⟩
  · rw [Entries.names_set]
    split <;> simp
  · intro i k v hold hne
    obtain ⟨place, -, hothers, hplace⟩ :=
      Entries.set_place package scriptsKey (.record (completed (scriptsOf package)))
    rw [hothers i ?_, hold]
    rintro rfl
    obtain ⟨w, -, hpair⟩ := Option.map_eq_some_iff.mp (hplace.symm.trans hold)
    exact hne (Prod.mk.inj hpair).1.symm

/-- What was extended lacks nothing any more. -/
theorem addScripts_again {package new : Entries} {added : Nat} (h : Equipped package new added) :
    addScripts new = .ok (new, 0) := by
  obtain ⟨entries, hget, hscripted⟩ := h.scripts
  have hscripts : HasScripts new := by
    intro v hv
    rw [hget] at hv
    cases hv
    exact ⟨entries, rfl⟩
  have hof : scriptsOf new = entries := by rw [scriptsOf, hget]
  have hmissing : missingScripts entries = [] := by
    refine List.filter_eq_nil_iff.mpr fun script hscript => ?_
    simp [hscripted.given script hscript]
  rw [addScripts_eq hscripts, hof, completed, hmissing]
  exact congrArg (fun new => Except.ok (new, 0)) (Entries.set_get? hget)

/-- If nothing was added, nothing changed. -/
theorem addScripts_none {package new : Entries} (h : HasScripts package)
    (hadd : addScripts package = .ok (new, 0)) : new = package := by
  rw [addScripts_eq h] at hadd
  obtain ⟨rfl, hlength⟩ := Prod.mk.inj (Except.ok.inj hadd)
  have hmissing : missingScripts (scriptsOf package) = [] := List.eq_nil_of_length_eq_zero hlength
  have hget : package.get? scriptsKey = some (.record (scriptsOf package)) := by
    cases hget : package.get? scriptsKey with
    | none =>
      have hnone : scriptsOf package = [] := by rw [scriptsOf, hget]
      rw [hnone] at hmissing
      exact absurd hmissing (by decide)
    | some v =>
      obtain ⟨entries, rfl⟩ := h v hget
      rw [scriptsOf, hget]
  rw [completed, hmissing]
  exact Entries.set_get? hget

end SchemaScaffold.Setup
