import SchemaScaffold.Proofs.Table.ImportTables

/-!
The laws of merging imports. A merge is a union that keeps the order: what was there stays in front,
and what is new follows in the order in which it is asked for, each symbol once. So merging twice is
merging once, merging one after the other is merging what both ask for, and the order of two merges
decides the order of the symbols only.
-/

namespace SchemaScaffold

/-! ## The symbols of one module -/

/-- Symbols that are there already change nothing. -/
theorem addSymbols_of_subset {old new : List String} (h : ∀ s ∈ new, s ∈ old) :
    addSymbols old new = old := by
  unfold addSymbols
  induction new with
  | nil => rfl
  | cons s new ih =>
    rw [List.foldl_cons, if_pos (by simpa using h s (by simp))]
    exact ih fun t ht => h t (List.mem_cons_of_mem _ ht)

theorem addSymbols_append (old first second : List String) :
    addSymbols old (first ++ second) = addSymbols (addSymbols old first) second :=
  List.foldl_append

/-- Adding what is gathered adds what it is gathered from. -/
theorem addSymbols_gathered (old first second : List String) :
    addSymbols old (addSymbols first second) = addSymbols old (first ++ second) := by
  induction second generalizing first with
  | nil => rw [List.append_nil]; rfl
  | cons s second ih =>
    by_cases hs : s ∈ first
    · -- the symbol is passed over here, and it is passed over behind `first`
      have hskip : addSymbols first (s :: second) = addSymbols first second := by
        rw [addSymbols, List.foldl_cons, if_pos (by simpa using hs), ← addSymbols]
      have hlater : addSymbols (addSymbols old first) [s] = addSymbols old first :=
        addSymbols_of_subset (by simpa using mem_addSymbols.mpr (.inr hs))
      rw [hskip, ih, addSymbols_append, addSymbols_append, ← List.singleton_append,
        addSymbols_append _ [s], hlater]
    · have htake : addSymbols first (s :: second) = addSymbols (first ++ [s]) second := by
        rw [addSymbols, List.foldl_cons, if_neg (by simpa using hs), ← addSymbols]
      rw [htake, ih, List.append_assoc, List.singleton_append]

theorem addSymbols_assoc (old first second : List String) :
    addSymbols (addSymbols old first) second = addSymbols old (addSymbols first second) := by
  rw [addSymbols_gathered, addSymbols_append]

/-- What is added is new, in the order in which it is asked for, each symbol once. -/
theorem addSymbols_added (old new : List String) : ∃ added, addSymbols old new = old ++ added ∧
    added.Nodup ∧ added.Sublist new ∧ ∀ s ∈ added, s ∉ old := by
  induction new generalizing old with
  | nil => exact ⟨[], (List.append_nil old).symm, List.nodup_nil, List.nil_sublist _, by simp⟩
  | cons s new ih =>
    rw [addSymbols, List.foldl_cons, ← addSymbols]
    by_cases hs : s ∈ old
    · obtain ⟨added, hadd, hnodup, hsublist, hnew⟩ := ih old
      rw [if_pos (by simpa using hs)]
      exact ⟨added, hadd, hnodup, hsublist.cons s, hnew⟩
    · obtain ⟨added, hadd, hnodup, hsublist, hnew⟩ := ih (old ++ [s])
      rw [if_neg (by simpa using hs)]
      have hapart : s ∉ added := fun hmem => hnew s hmem (by simp)
      refine ⟨s :: added, by rw [hadd, List.append_assoc, List.singleton_append],
        List.nodup_cons.mpr ⟨hapart, hnodup⟩, hsublist.cons_cons s, ?_⟩
      exact List.forall_mem_cons.mpr
        ⟨hs, fun t ht hold => hnew t ht (List.mem_append_left _ hold)⟩

namespace Imports

/-! ## Tables -/

/-- Two tables are the same if they have the same modules in the same order, with the same symbols. -/
theorem eq_of_symbols {a b : Imports} (ha : (a.map (·.1)).Nodup)
    (hmodules : a.map (·.1) = b.map (·.1)) (hsymbols : ∀ module, a.symbols module = b.symbols module) :
    a = b := by
  have hb : (b.map (·.1)).Nodup := hmodules ▸ ha
  calc
    a = (a.map (·.1)).map fun module => (module, a.symbols module) := eq_map_symbols ha
    _ = (b.map (·.1)).map fun module => (module, b.symbols module) := by
      rw [hmodules]
      exact List.map_congr_left fun module _ => by rw [hsymbols]
    _ = b := (eq_map_symbols hb).symm

theorem nodup_merge {old new : Imports} (hold : (old.map (·.1)).Nodup)
    (hnew : (new.map (·.1)).Nodup) : ((old.merge new).map (·.1)).Nodup :=
  modules_merge hnew old ▸ nodup_firstSeen hold hnew

theorem mem_modules_merge {old new : Imports} (hnew : (new.map (·.1)).Nodup) {module : String} :
    module ∈ (old.merge new).map (·.1) ↔ module ∈ old.map (·.1) ∨ module ∈ new.map (·.1) := by
  rw [modules_merge hnew, List.mem_append, List.mem_filter, decide_eq_true_iff]
  by_cases h : module ∈ old.map (·.1) <;> simp [h]

theorem mem_symbols_merge {old new : Imports} (hnew : (new.map (·.1)).Nodup) {module s : String} :
    s ∈ (old.merge new).symbols module ↔ s ∈ old.symbols module ∨ s ∈ new.symbols module := by
  rw [symbols_merge hnew, mem_addSymbols]

theorem merge_assoc {old first second : Imports} (hold : (old.map (·.1)).Nodup)
    (hfirst : (first.map (·.1)).Nodup) (hsecond : (second.map (·.1)).Nodup) :
    (old.merge first).merge second = old.merge (first.merge second) := by
  have hboth := nodup_merge hfirst hsecond
  refine eq_of_symbols (nodup_merge (nodup_merge hold hfirst) hsecond) ?_ fun module => ?_
  · -- a module of `second` is new if it is in neither of the tables before it
    have hfilter : (second.map (·.1)).filter (· ∉ (old.merge first).map (·.1)) =
        ((second.map (·.1)).filter (· ∉ first.map (·.1))).filter (· ∉ old.map (·.1)) := by
      rw [List.filter_filter]
      refine List.filter_congr fun module _ => ?_
      rw [← Bool.decide_and, decide_eq_decide, mem_modules_merge hfirst, not_or]
    rw [modules_merge hsecond, hfilter, modules_merge hfirst, modules_merge hboth,
      modules_merge hsecond, List.filter_append, List.append_assoc]
  · rw [symbols_merge hsecond, symbols_merge hfirst, symbols_merge hboth, symbols_merge hsecond,
      addSymbols_assoc]

/-- What has been merged need not be merged again. -/
theorem merge_merge_self {old new : Imports} (hold : (old.map (·.1)).Nodup)
    (hnew : (new.map (·.1)).Nodup) : (old.merge new).merge new = old.merge new := by
  refine eq_of_symbols (nodup_merge (nodup_merge hold hnew) hnew) ?_ fun module => ?_
  · have hnone : (new.map (·.1)).filter (· ∉ (old.merge new).map (·.1)) = [] :=
      List.filter_eq_nil_iff.mpr fun module hmodule => by
        have hthere : module ∈ (old.merge new).map (·.1) := (mem_modules_merge hnew).mpr (.inr hmodule)
        simpa using hthere
    rw [modules_merge hnew, hnone, List.append_nil]
  · rw [symbols_merge hnew, addSymbols_of_subset fun s hs => (mem_symbols_merge hnew).mpr (.inr hs)]

/-! ## Ordered unions -/

/-- A table has all of two others, the old one in front. -/
structure OrderedUnion (old new merged : Imports) : Prop where
  modules : merged.map (·.1) = firstSeen old new
  added : ∀ module, ∃ added, merged.symbols module = old.symbols module ++ added ∧ added.Nodup ∧
    added.Sublist (new.symbols module) ∧ ∀ s ∈ added, s ∉ old.symbols module
  symbols : ∀ module s,
    s ∈ merged.symbols module ↔ s ∈ old.symbols module ∨ s ∈ new.symbols module

/-- Two tables have the same modules with the same symbols, in whatever order. -/
structure SameSymbols (a b : Imports) : Prop where
  modules : ∀ module, module ∈ a.map (·.1) ↔ module ∈ b.map (·.1)
  symbols : ∀ module s, s ∈ a.symbols module ↔ s ∈ b.symbols module

theorem orderedUnion_merge {old new : Imports} (hnew : (new.map (·.1)).Nodup) :
    OrderedUnion old new (old.merge new) where
  modules := modules_merge hnew old
  added module := symbols_merge hnew old module ▸ addSymbols_added _ _
  symbols _ _ := mem_symbols_merge hnew

theorem sameSymbols_comm {a b : Imports} (ha : (a.map (·.1)).Nodup) (hb : (b.map (·.1)).Nodup) :
    SameSymbols (a.merge b) (b.merge a) where
  modules _ := by rw [mem_modules_merge hb, mem_modules_merge ha, or_comm]
  symbols _ _ := by rw [mem_symbols_merge hb, mem_symbols_merge ha, or_comm]

/-- What is merged into a table may be exchanged for what has the same symbols. -/
theorem SameSymbols.merge {a b : Imports} (h : SameSymbols a b) (ha : (a.map (·.1)).Nodup)
    (hb : (b.map (·.1)).Nodup) (old : Imports) : SameSymbols (old.merge a) (old.merge b) where
  modules _ := by rw [mem_modules_merge ha, mem_modules_merge hb, h.modules]
  symbols _ _ := by rw [mem_symbols_merge ha, mem_symbols_merge hb, h.symbols]

/-- Merging is an ordered union. It is associative, and a table merged a second time adds nothing; a
merge keeps the old modules and symbols in front and adds those that are new, each once, in the order
of the new table; and the order of two merges makes no difference to what the result has. Tables have
each module once, but a module may have a symbol more than once. -/
theorem merge_ordered {old first second : Imports} (hold : (old.map (·.1)).Nodup)
    (hfirst : (first.map (·.1)).Nodup) (hsecond : (second.map (·.1)).Nodup) :
    (old.merge first).merge second = old.merge (first.merge second) ∧
      (old.merge first).merge first = old.merge first ∧
      OrderedUnion old first (old.merge first) ∧
      SameSymbols (first.merge second) (second.merge first) ∧
      SameSymbols ((old.merge first).merge second) ((old.merge second).merge first) := by
  have hsame := sameSymbols_comm hfirst hsecond
  refine ⟨merge_assoc hold hfirst hsecond, merge_merge_self hold hfirst,
    orderedUnion_merge hfirst, hsame, ?_⟩
  rw [merge_assoc hold hfirst hsecond, merge_assoc hold hsecond hfirst]
  exact hsame.merge (nodup_merge hfirst hsecond) (nodup_merge hsecond hfirst) old

/-- Tables with repeated symbols, a shared module, and a module that has none. -/
theorem merge_ordered_repeated :
    let old : Imports := [("m", ["b", "b"]), ("n", [])]
    let first : Imports := [("o", ["x", "x"]), ("m", ["a", "b", "a"])]
    let second : Imports := [("m", ["c", "a"]), ("n", ["y"])]
    (old.map (·.1)).Nodup ∧ (first.map (·.1)).Nodup ∧ (second.map (·.1)).Nodup ∧
      old.merge first = [("m", ["b", "b", "a"]), ("n", []), ("o", ["x"])] ∧
      ((old.merge first).merge second = old.merge (first.merge second) ∧
        (old.merge first).merge first = old.merge first ∧
        OrderedUnion old first (old.merge first) ∧
        SameSymbols (first.merge second) (second.merge first) ∧
        SameSymbols ((old.merge first).merge second) ((old.merge second).merge first)) := by
  intro old first second
  have hold : (old.map (·.1)).Nodup := by decide
  have hfirst : (first.map (·.1)).Nodup := by decide
  have hsecond : (second.map (·.1)).Nodup := by decide
  exact ⟨hold, hfirst, hsecond, by decide, merge_ordered hold hfirst hsecond⟩

end Imports
end SchemaScaffold
