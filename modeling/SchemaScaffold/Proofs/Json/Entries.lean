import SchemaScaffold.Json.Value
import Mathlib.Data.List.Nodup

/-!
Setting the entries of a record. An entry is set at the first place of its name, or else behind the
others, so every other place stays as it is; and when several entries of different names are set, as
many places change, and new names come last, in the order in which they were set.
-/

namespace SchemaScaffold.Json.Entries

variable {entries given : Entries} {k k' : List UInt16} {v v' : Value}

/-- The names of a record, in order. -/
def names (entries : Entries) : List (List UInt16) := entries.map (·.1)

theorem get?_eq_none_iff : entries.get? k = none ↔ k ∉ entries.names := by
  rw [get?, List.lookup_eq_none_iff, names, List.mem_map]
  constructor
  · rintro h ⟨e, he, rfl⟩
    simpa using h e he
  · intro h e he
    rw [bne_iff_ne]
    rintro rfl
    exact h ⟨e, he, rfl⟩

theorem get?_cons : get? ((k', v') :: entries) k = if k = k' then some v' else entries.get? k := by
  rw [get?, List.lookup_cons]
  by_cases h : k = k'
  · simp [h]
  · rw [if_neg h, beq_eq_false_iff_ne.mpr h, get?]

theorem set_cons : set ((k', v') :: entries) k v =
    if k' = k then (k', v) :: entries else (k', v') :: entries.set k v := by
  rw [set]
  by_cases h : k' = k <;> simp [h]

/-- An entry is set at one place: where the name stands first, or behind the others. -/
theorem set_place (entries : Entries) (k : List UInt16) (v : Value) :
    ∃ i : Nat, (entries.set k v)[i]? = some (k, v) ∧ (∀ j, j ≠ i → (entries.set k v)[j]? = entries[j]?) ∧
      entries[i]? = (entries.get? k).map (k, ·) := by
  induction entries with
  | nil => exact ⟨0, rfl, fun j hj => by cases j <;> simp_all [set], rfl⟩
  | cons e entries ih =>
    obtain ⟨k', v'⟩ := e
    rw [set_cons, get?_cons]
    by_cases h : k' = k
    · subst h
      refine ⟨0, by simp, fun j hj => ?_, by simp⟩
      cases j with
      | zero => exact absurd rfl hj
      | succ j => simp
    · obtain ⟨i, hset, hothers, hold⟩ := ih
      rw [if_neg h, if_neg (Ne.symm h)]
      refine ⟨i + 1, by simpa using hset, fun j hj => ?_, by simpa using hold⟩
      cases j with
      | zero => rfl
      | succ j => simpa using hothers j (by omega)

theorem names_set : (entries.set k v).names =
    if k ∈ entries.names then entries.names else entries.names ++ [k] := by
  induction entries with
  | nil => rfl
  | cons e entries ih =>
    obtain ⟨k', v'⟩ := e
    rw [set_cons]
    by_cases h : k' = k
    · simp [h, names]
    · rw [if_neg h]
      show k' :: names (set entries k v) = if k ∈ k' :: names entries then _ else _
      rw [ih]
      by_cases hk : k ∈ names entries
      · rw [if_pos hk, if_pos (List.mem_cons_of_mem _ hk)]
        rfl
      · rw [if_neg hk, if_neg (List.not_mem_cons_of_ne_of_not_mem (Ne.symm h) hk)]
        rfl

theorem get?_set_self : (entries.set k v).get? k = some v := by
  induction entries with
  | nil => simp [set, get?]
  | cons e entries ih =>
    obtain ⟨k', v'⟩ := e
    rw [set_cons]
    by_cases h : k' = k
    · simp [h, get?_cons]
    · rw [if_neg h, get?_cons, if_neg (Ne.symm h), ih]

theorem get?_set_ne (h : k' ≠ k) : (entries.set k v).get? k' = entries.get? k' := by
  induction entries with
  | nil => simp [set, get?_cons, h]
  | cons e entries ih =>
    obtain ⟨l, w⟩ := e
    rw [set_cons]
    by_cases hl : l = k
    · rw [if_pos hl, get?_cons, get?_cons, hl, if_neg h, if_neg h]
    · rw [if_neg hl, get?_cons, get?_cons, ih]

/-- Setting an entry to what it is changes nothing. -/
theorem set_get? (h : entries.get? k = some v) : entries.set k v = entries := by
  obtain ⟨i, hset, hothers, hold⟩ := set_place entries k v
  refine List.ext_getElem? fun j => ?_
  by_cases hj : j = i
  · rw [hj, hset, hold, h]
    rfl
  · exact hothers j hj

/-! ## Several entries -/

/-- Sets one entry after the other. -/
def setAll (entries given : Entries) : Entries := given.foldl (fun entries e => entries.set e.1 e.2) entries

theorem setAll_cons (e : List UInt16 × Value) :
    setAll entries (e :: given) = setAll (entries.set e.1 e.2) given := rfl

theorem get?_setAll_of_not_mem (h : k ∉ given.names) : (setAll entries given).get? k = entries.get? k := by
  induction given generalizing entries with
  | nil => rfl
  | cons e given ih =>
    obtain ⟨hne, hrest⟩ := List.ne_and_not_mem_of_not_mem_cons h
    rw [setAll_cons, ih hrest, get?_set_ne hne]

/-- The entries that were set are there. -/
theorem get?_setAll_of_mem (hnodup : given.names.Nodup) {e : List UInt16 × Value} (he : e ∈ given) :
    (setAll entries given).get? e.1 = some e.2 := by
  induction given generalizing entries with
  | nil => cases he
  | cons e' given ih =>
    obtain ⟨hfresh, hrest⟩ := List.nodup_cons.mp hnodup
    rw [setAll_cons]
    rcases List.mem_cons.mp he with rfl | he
    · rw [get?_setAll_of_not_mem hfresh, get?_set_self]
    · exact ih hrest he

/-- New names come behind the others, in the order in which they were set. -/
theorem names_setAll (hnodup : given.names.Nodup) :
    (setAll entries given).names = entries.names ++ given.names.filter (· ∉ entries.names) := by
  induction given generalizing entries with
  | nil => simp [setAll, names]
  | cons e given ih =>
    obtain ⟨hfresh, hrest⟩ := List.nodup_cons.mp hnodup
    rw [setAll_cons, ih hrest, names_set, show names (e :: given) = e.1 :: names given from rfl]
    by_cases he : e.1 ∈ entries.names
    · rw [if_pos he, List.filter_cons_of_neg (by simpa using he)]
    · rw [if_neg he, List.filter_cons_of_pos (by simpa using he), List.append_assoc,
        List.singleton_append]
      congr 2
      refine List.filter_congr fun l hl => ?_
      have hne : l ≠ e.1 := by
        rintro rfl
        exact hfresh hl
      simp [hne]

theorem name_ne {e e' : List UInt16 × Value} (hfresh : e.1 ∉ given.names) (he' : e' ∈ given) :
    e'.1 ≠ e.1 := by
  intro heq
  have hmem : e'.1 ∈ given.names := List.mem_map_of_mem he'
  exact hfresh (heq ▸ hmem)

/-- A place changes only if it is the first of a name that was set, or if it is new. -/
theorem setAll_changed (hnodup : given.names.Nodup) {i : Nat}
    (h : (setAll entries given)[i]? ≠ entries[i]?) :
    ∃ e ∈ given, entries[i]? = (entries.get? e.1).map (e.1, ·) := by
  induction given generalizing entries with
  | nil => exact absurd rfl h
  | cons e given ih =>
    obtain ⟨hfresh, hrest⟩ := List.nodup_cons.mp hnodup
    rw [setAll_cons] at h
    obtain ⟨place, hset, hothers, hold⟩ := set_place entries e.1 e.2
    by_cases hplace : i = place
    · exact ⟨e, by simp, hplace ▸ hold⟩
    · rw [← hothers i hplace] at h
      obtain ⟨e', he', hold'⟩ := ih hrest h
      rw [hothers i hplace, get?_set_ne (name_ne hfresh he')] at hold'
      exact ⟨e', List.mem_cons_of_mem _ he', hold'⟩

/-- As many places change as entries are set, if each of them is set to something new. -/
theorem setAll_places (hnodup : given.names.Nodup) (hnew : ∀ e ∈ given, entries.get? e.1 ≠ some e.2) :
    ∃ places : List Nat, places.Nodup ∧ places.length = given.length ∧
      ∀ i, i ∈ places ↔ (setAll entries given)[i]? ≠ entries[i]? := by
  induction given generalizing entries with
  | nil => exact ⟨[], .nil, rfl, fun i => by simp [setAll]⟩
  | cons e given ih =>
    obtain ⟨hfresh, hrest⟩ := List.nodup_cons.mp hnodup
    obtain ⟨hnew, hnewRest⟩ := List.forall_mem_cons.mp hnew
    obtain ⟨place, hset, hothers, hold⟩ := set_place entries e.1 e.2
    have hnewSet : ∀ e' ∈ given, (entries.set e.1 e.2).get? e'.1 ≠ some e'.2 := fun e' he' => by
      rw [get?_set_ne (name_ne hfresh he')]
      exact hnewRest e' he'
    obtain ⟨places, hplaces, hlength, hmem⟩ := ih hrest hnewSet
    -- the place of this entry is none of the places of the others, whose names differ
    have hkept : (setAll (entries.set e.1 e.2) given)[place]? = some (e.1, e.2) := by
      rw [← hset]
      by_contra hchanged
      obtain ⟨e', he', hold'⟩ := setAll_changed hrest hchanged
      rw [hset, eq_comm, Option.map_eq_some_iff] at hold'
      obtain ⟨v, -, hpair⟩ := hold'
      exact name_ne hfresh he' (Prod.mk.inj hpair).1
    refine ⟨place :: places, List.nodup_cons.mpr ⟨?_, hplaces⟩, by simp [hlength], fun i => ?_⟩
    · rw [hmem, hkept, hset]
      exact fun h => h rfl
    · rw [setAll_cons, List.mem_cons, hmem]
      by_cases hi : i = place
      · subst hi
        refine iff_of_true (.inl rfl) ?_
        rw [hkept, hold]
        intro heq
        obtain ⟨v, hv, hpair⟩ := Option.map_eq_some_iff.mp heq.symm
        exact hnew (by rw [hv, (Prod.mk.inj hpair).2])
      · rw [hothers i hi, or_iff_right hi]

end SchemaScaffold.Json.Entries
