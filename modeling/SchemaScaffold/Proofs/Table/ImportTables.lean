import SchemaScaffold.Proofs.Source.Statements
import SchemaScaffold.Proofs.Table.Imports
import SchemaScaffold.Proofs.Text.Splitting

/-!
Import tables and their lines. A merge gives every module the symbols that it had, and then those
that are new. Whatever is read from a text is legible: a module is what may stand between quotes, a
symbol what may stand between commas, with its blanks collapsed. So every entry can be written on a
line, and reading the line gives the entry back.
-/

namespace SchemaScaffold

open Source Naming Text

/-- Symbols that are not there yet go to the end. -/
theorem addSymbols_eq {old new : List String} (h : new.Nodup) :
    addSymbols old new = old ++ new.filter (· ∉ old) := by
  unfold addSymbols
  induction new generalizing old with
  | nil => simp
  | cons s new ih =>
    obtain ⟨hs, hnew⟩ := List.nodup_cons.mp h
    rw [List.foldl_cons, ih hnew]
    by_cases hold : s ∈ old
    · rw [if_pos (by simpa using hold), List.filter_cons_of_neg (by simpa using hold)]
    · have hfilter : new.filter (· ∉ old ++ [s]) = new.filter (· ∉ old) :=
        List.filter_congr fun t ht => by
          have hne : t ≠ s := fun he => hs (he ▸ ht)
          simp [hne]
      rw [if_neg (by simpa using hold), hfilter, List.filter_cons_of_pos (by simpa using hold)]
      simp

theorem addSymbols_prefix (old new : List String) : old <+: addSymbols old new := by
  unfold addSymbols
  induction new generalizing old with
  | nil => exact List.prefix_refl old
  | cons s new ih =>
    rw [List.foldl_cons]
    split
    · exact ih old
    · exact (List.prefix_append old [s]).trans (ih _)

namespace Imports

/-- The symbols of a module, none if it is not there. -/
def symbols (imports : Imports) (module : String) : List String := (imports.lookup module).getD []

theorem symbols_cons (name : String) (old : List String) (imports : Imports) (module : String) :
    symbols ((name, old) :: imports) module = if module = name then old else imports.symbols module := by
  by_cases h : module = name
  · simp [symbols, h]
  · rw [symbols, List.lookup_cons, beq_false_of_ne h, if_neg h]
    rfl

theorem symbols_add (name : String) (new : List String) (imports : Imports) (module : String) :
    symbols (add name new imports) module =
      if module = name then addSymbols (imports.symbols name) new else imports.symbols module := by
  induction imports with
  | nil => exact symbols_cons name _ [] module
  | cons first imports ih =>
    obtain ⟨other, old⟩ := first
    rw [add]
    by_cases hname : other = name
    · rw [if_pos (by simpa using hname), symbols_cons, symbols_cons, symbols_cons, hname, if_pos rfl]
      by_cases hmodule : module = name
      · rw [if_pos hmodule, if_pos hmodule]
      · rw [if_neg hmodule, if_neg hmodule, if_neg hmodule]
    · rw [if_neg (by simpa using hname), symbols_cons, symbols_cons, symbols_cons, ih,
        if_neg (Ne.symm hname)]
      by_cases hmodule : module = name
      · have hne : module ≠ other := fun he => hname (he.symm.trans hmodule)
        rw [if_neg hne, if_pos hmodule, if_pos hmodule]
      · rw [if_neg hmodule, if_neg hmodule]

theorem symbols_of_not_mem {imports : Imports} {module : String} (h : module ∉ imports.map (·.1)) :
    imports.symbols module = [] := by
  induction imports with
  | nil => rfl
  | cons first imports ih =>
    rw [List.map_cons, List.mem_cons, not_or] at h
    rw [symbols_cons, if_neg h.1, ih h.2]

theorem symbols_of_mem {imports : Imports} (h : (imports.map (·.1)).Nodup)
    {entry : String × List String} (hentry : entry ∈ imports) :
    imports.symbols entry.1 = entry.2 := by
  induction imports with
  | nil => cases hentry
  | cons first imports ih =>
    rw [List.map_cons, List.nodup_cons] at h
    rw [symbols_cons]
    rcases List.mem_cons.mp hentry with rfl | hentry
    · rw [if_pos rfl]
    · have hne : entry.1 ≠ first.1 := fun he => h.1 (he ▸ List.mem_map_of_mem hentry)
      rw [if_neg hne, ih h.2 hentry]

theorem nodup_symbols {imports : Imports} (h : (imports.map (·.1)).Nodup)
    (hsymbols : ∀ entry ∈ imports, entry.2.Nodup) (module : String) :
    (imports.symbols module).Nodup := by
  by_cases hmem : module ∈ imports.map (·.1)
  · obtain ⟨entry, hentry, rfl⟩ := List.mem_map.mp hmem
    rw [symbols_of_mem h hentry]
    exact hsymbols entry hentry
  · rw [symbols_of_not_mem hmem]
    exact List.nodup_nil

/-- A table is its modules with their symbols. -/
theorem eq_map_symbols {imports : Imports} (h : (imports.map (·.1)).Nodup) :
    imports = (imports.map (·.1)).map fun module => (module, imports.symbols module) := by
  have hentry : ∀ entry ∈ imports, id entry = (entry.1, imports.symbols entry.1) :=
    fun entry hentry => by rw [symbols_of_mem h hentry]; rfl
  rw [List.map_map]
  exact (List.map_id imports).symm.trans (List.map_congr_left hentry)

theorem symbols_merge {new : Imports} (h : (new.map (·.1)).Nodup) (old : Imports) (module : String) :
    (old.merge new).symbols module = addSymbols (old.symbols module) (new.symbols module) := by
  unfold merge
  induction new generalizing old with
  | nil => rfl
  | cons entry new ih =>
    obtain ⟨name, symbols⟩ := entry
    rw [List.map_cons, List.nodup_cons] at h
    rw [List.foldl_cons, ih h.2, symbols_add, symbols_cons]
    by_cases hmodule : module = name
    · rw [if_pos hmodule, if_pos hmodule, hmodule, symbols_of_not_mem h.1]
      rfl
    · rw [if_neg hmodule, if_neg hmodule]

theorem modules_merge {new : Imports} (h : (new.map (·.1)).Nodup) (old : Imports) :
    (old.merge new).map (·.1) =
      old.map (·.1) ++ (new.map (·.1)).filter (· ∉ old.map (·.1)) := by
  unfold merge
  induction new generalizing old with
  | nil => simp
  | cons entry new ih =>
    obtain ⟨name, symbols⟩ := entry
    rw [List.map_cons, List.nodup_cons] at h
    rw [List.foldl_cons, ih h.2, add_modules, List.map_cons]
    by_cases hname : name ∈ old.map (·.1)
    · rw [if_pos hname, List.filter_cons_of_neg (by simpa using hname)]
    · have hfilter : (new.map (·.1)).filter (· ∉ old.map (·.1) ++ [name]) =
          (new.map (·.1)).filter (· ∉ old.map (·.1)) :=
        List.filter_congr fun module hmodule => by
          have hne : module ≠ name := fun he => h.1 (he ▸ hmodule)
          simp [hne]
      rw [if_neg hname, hfilter, List.filter_cons_of_pos (by simpa using hname)]
      simp

/-! ## What a merge is to give -/

/-- The modules of two tables, in the order in which they are first seen. -/
def firstSeen (old new : Imports) : List String :=
  old.map (·.1) ++ (new.map (·.1)).filter (· ∉ old.map (·.1))

/-- The symbols that a module has in two tables: the old ones, and then the new ones in their
order. -/
def union (old new : Imports) (module : String) : List String :=
  old.symbols module ++ (new.symbols module).filter (· ∉ old.symbols module)

theorem mem_union {old new : Imports} {module s : String} :
    s ∈ union old new module ↔ s ∈ old.symbols module ∨ s ∈ new.symbols module := by
  rw [union, List.mem_append, List.mem_filter, decide_eq_true_iff]
  by_cases h : s ∈ old.symbols module <;> simp [h]

theorem nodup_firstSeen {old new : Imports} (hold : (old.map (·.1)).Nodup)
    (hnew : (new.map (·.1)).Nodup) : (firstSeen old new).Nodup := by
  refine List.nodup_append.mpr ⟨hold, hnew.filter _, fun a ha b hb hab => ?_⟩
  rw [← hab, List.mem_filter] at hb
  exact of_decide_eq_true hb.2 ha

/-- A merge gives every module its symbols in both tables. -/
theorem merge_eq {old new : Imports} (hold : (old.map (·.1)).Nodup) (hnew : (new.map (·.1)).Nodup)
    (hsymbols : ∀ entry ∈ new, entry.2.Nodup) :
    old.merge new = (firstSeen old new).map fun module => (module, union old new module) := by
  have hmodules : (old.merge new).map (·.1) = firstSeen old new := modules_merge hnew old
  have hnodup : ((old.merge new).map (·.1)).Nodup := hmodules ▸ nodup_firstSeen hold hnew
  rw [eq_map_symbols hnodup, hmodules]
  refine List.map_congr_left fun module _ => ?_
  rw [symbols_merge hnew, addSymbols_eq (nodup_symbols hnew hsymbols module), union]

/-! ## Entries that are shown -/

/-- The entries with a symbol: the others need no statement. -/
def shown (imports : Imports) : Imports := imports.filter (!·.2.isEmpty)

theorem symbols_shown {imports : Imports} (h : (imports.map (·.1)).Nodup) (module : String) :
    imports.shown.symbols module = imports.symbols module := by
  induction imports with
  | nil => rfl
  | cons entry imports ih =>
    obtain ⟨name, symbols⟩ := entry
    rw [List.map_cons, List.nodup_cons] at h
    rw [symbols_cons, shown]
    by_cases hempty : symbols = []
    · rw [List.filter_cons_of_neg (by simp [hempty]), ← shown, ih h.2]
      split
      · rename_i hmodule
        rw [hmodule, hempty, symbols_of_not_mem h.1]
      · rfl
    · rw [List.filter_cons_of_pos (by simpa using hempty), ← shown, symbols_cons, ih h.2]

end Imports
end SchemaScaffold
