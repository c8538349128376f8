import SchemaScaffold.Project.Tree
import SchemaScaffold.Proofs.Project.Paths

/-!
Trees as maps from places to nodes. A straight path leads to the place of the same name, so what an
operation does is told by what it does to one place: it puts a node there, or takes out what lies
below it.
-/

namespace SchemaScaffold.Tree

open SchemaScaffold.Path

/-- Every entry lies in a directory. -/
def Closed (t : Tree) : Prop := ∀ entry ∈ t.entries, t.get? entry.1.dropLast = some .directory

instance (t : Tree) : Decidable (Closed t) :=
  inferInstanceAs (Decidable (∀ entry ∈ t.entries, t.get? entry.1.dropLast = some .directory))

theorem isAbove_concat (p : Path) (part : String) :
    isAbove (p ++ [part]) = (isAbove p && part == up) := by
  simp [isAbove]

theorem get?_above {t : Tree} {p : Path} (h : isAbove p = true) : t.get? p = some .directory := by
  simp [get?, h]

/-- Above the root there are only directories. -/
theorem isAbove_eq_false {t : Tree} {p : Path} (h : t.get? p ≠ some .directory) : isAbove p = false := by
  by_contra habove
  exact h (get?_above (by simpa using habove))

theorem isAbove_of_straight {p : Path} (h : Straight (p ++ [up])) : isAbove p = true := by
  simpa [isAbove] using h.all_up

/-! ## Changing a tree -/

theorem lookup_cons_eq (entry : Path × Node) (entries : List (Path × Node)) (q : Path) :
    (entry :: entries).lookup q = if q = entry.1 then some entry.2 else entries.lookup q := by
  rw [List.lookup_cons]
  by_cases h : q = entry.1
  · rw [if_pos h, show (q == entry.1) = true by simpa using h]
  · rw [if_neg h, show (q == entry.1) = false by simpa using h]

/-- Putting a node over what is at a place changes that place only. -/
theorem lookup_map (entries : List (Path × Node)) (p q : Path) (node : Node) :
    (entries.map fun entry => if entry.1 == p then (p, node) else entry).lookup q =
      if q = p then (entries.lookup q).map fun _ => node else entries.lookup q := by
  induction entries with
  | nil => simp
  | cons entry entries ih =>
    rw [List.map_cons, lookup_cons_eq, lookup_cons_eq, ih]
    by_cases he : entry.1 = p <;> by_cases hq : q = p
    · simp [he, hq]
    · simp [he, hq]
    · have hne : p ≠ entry.1 := fun h => he h.symm
      simp [he, hq, hne]
    · simp [he, hq]

theorem lookup_insert (t : Tree) (p q : Path) (node : Node) :
    (t.insert p node).entries.lookup q = if q = p then some node else t.entries.lookup q := by
  unfold insert
  split
  · rename_i hsome
    obtain ⟨old, hold⟩ := Option.isSome_iff_exists.mp hsome
    rw [lookup_map]
    by_cases hq : q = p
    · simp [hq, hold]
    · simp [hq]
  · rename_i hnone
    rw [Option.not_isSome_iff_eq_none] at hnone
    rw [List.lookup_append, lookup_cons_eq]
    by_cases hq : q = p
    · simp [hq, hnone]
    · simp [hq]

theorem get?_insert {t : Tree} {p : Path} (hp : isAbove p = false) (q : Path) (node : Node) :
    (t.insert p node).get? q = if q = p then some node else t.get? q := by
  unfold get?
  by_cases hq : isAbove q = true
  · have hne : q ≠ p := fun he => by simp [he, hp] at hq
    simp [hq, hne]
  · simp [hq, lookup_insert]

theorem mem_insert {t : Tree} {p : Path} {node : Node} {entry : Path × Node}
    (h : entry ∈ (t.insert p node).entries) : entry.1 = p ∨ entry ∈ t.entries := by
  unfold insert at h
  split at h
  · obtain ⟨other, hother, he⟩ := List.mem_map.mp h
    split at he
    · exact .inl (he ▸ rfl)
    · exact .inr (he ▸ hother)
  · rcases List.mem_append.mp h with h | h
    · exact .inr h
    · exact .inl (by simpa using congrArg Prod.fst (List.mem_singleton.mp h))

/-- A node may be put into a directory, unless it is a file that takes the place of a directory. -/
theorem Closed.insert {t : Tree} (ht : Closed t) {p : Path} {node : Node} (hp : isAbove p = false)
    (hin : t.get? p.dropLast = some .directory)
    (hover : node = .directory ∨ t.get? p ≠ some .directory) : Closed (t.insert p node) := by
  have hkeeps : ∀ q, t.get? q = some .directory → (t.insert p node).get? q = some .directory := by
    intro q hq
    rw [get?_insert hp]
    split
    · rename_i he
      rcases hover with rfl | hover
      · rfl
      · exact absurd (he ▸ hq) hover
    · exact hq
  intro entry hentry
  rcases mem_insert hentry with he | hold
  · exact hkeeps _ (he ▸ hin)
  · exact hkeeps _ (ht entry hold)

theorem mem_of_get? {t : Tree} {p : Path} {node : Node} (hp : isAbove p = false)
    (h : t.get? p = some node) : (p, node) ∈ t.entries := by
  simp only [get?, hp, Bool.false_eq_true, if_false] at h
  obtain ⟨before, after, he, -⟩ := List.lookup_eq_some_iff.mp h
  simp [he]

theorem Closed.parent {t : Tree} (ht : Closed t) {p : Path} {part : String}
    (h : (t.get? (p ++ [part])).isSome = true) : t.get? p = some .directory := by
  cases habove : isAbove (p ++ [part]) with
  | true =>
    rw [isAbove_concat] at habove
    exact get?_above (Bool.and_eq_true_iff.mp habove).1
  | false =>
    obtain ⟨node, hnode⟩ := Option.isSome_iff_exists.mp h
    simpa using ht _ (mem_of_get? habove hnode)

/-- Nothing is below a place that holds no directory. -/
theorem Closed.below {t : Tree} (ht : Closed t) {p : Path} (hp : t.get? p ≠ some .directory)
    {q : Path} (hq : q ≠ []) : t.get? (p ++ q) = none := by
  induction q using List.reverseRecOn with
  | nil => exact absurd rfl hq
  | append_singleton q part ih =>
    by_contra hsome
    rw [← List.append_assoc] at hsome
    have hdir := ht.parent (Option.isSome_iff_ne_none.mpr hsome)
    by_cases hnil : q = []
    · exact hp (by simpa [hnil] using hdir)
    · rw [ih hnil] at hdir
      cases hdir

/-- Nothing is below a place where nothing is. -/
theorem Closed.none_below {t : Tree} (ht : Closed t) {p q : Path} (hp : t.get? p = none)
    (hpre : p <+: q) : t.get? q = none := by
  obtain ⟨rest, rfl⟩ := hpre
  by_cases hrest : rest = []
  · rwa [hrest, List.append_nil]
  · exact ht.below (by simp [hp]) hrest

/-- Everything on the way to a node is a directory. -/
theorem Closed.above {t : Tree} (ht : Closed t) {p q : Path} (hq : (t.get? q).isSome = true)
    (hpre : p <+: q) (hne : p ≠ q) : t.get? p = some .directory := by
  obtain ⟨rest, rfl⟩ := hpre
  by_contra hnot
  rw [ht.below hnot fun hnil => hne (by rw [hnil, List.append_nil])] at hq
  cases hq

theorem lookup_filter {entries : List (Path × Node)} {k : Path → Bool} {q : Path} :
    (entries.filter fun entry => k entry.1).lookup q =
      if k q then entries.lookup q else none := by
  induction entries with
  | nil => simp
  | cons entry entries ih =>
    rw [List.filter_cons, lookup_cons_eq]
    by_cases hk : k entry.1 = true
    · rw [if_pos hk, lookup_cons_eq, ih]
      by_cases hq : q = entry.1
      · simp [hq, hk]
      · simp [hq]
    · rw [if_neg hk, ih]
      by_cases hq : q = entry.1
      · simp [hq, hk]
      · simp [hq]

/-- What is not below a removed place stays. -/
theorem get?_erase {t : Tree} {p q : Path} (h : ¬ p <+: q) : (t.erase p).get? q = t.get? q := by
  have hkeep : (!p.isPrefixOf q) = true := by
    rwa [Bool.not_eq_true', ← Bool.not_eq_true, List.isPrefixOf_iff_prefix]
  unfold get? erase
  rw [lookup_filter (k := fun q => !p.isPrefixOf q), if_pos hkeep]

theorem get?_erase_below {t : Tree} {p q : Path} (h : p <+: q) (hq : isAbove q = false) :
    (t.erase p).get? q = none := by
  have hgone : ¬ (!p.isPrefixOf q) = true := by simpa using h
  unfold get? erase
  rw [lookup_filter (k := fun q => !p.isPrefixOf q), if_neg hgone]
  simp [hq]

/-! ## Following a path -/

theorem follow_cons {t : Tree} {directory rest : Path} {part : String}
    (h : Straight (directory ++ part :: rest)) : t.follow directory (part :: rest) =
      if nameLimit < part.utf8ByteSize then .nowhere .nameTooLong
      else
        match t.get? (directory ++ [part]) with
        | some .directory => t.follow (directory ++ [part]) rest
        | some (.file content) =>
          if rest.isEmpty then .found (directory ++ [part]) (.file content)
          else .nowhere .notDirectory
        | none => if rest.isEmpty then .free (directory ++ [part]) else .nowhere .missing := by
  have hstep : Straight (directory ++ [part]) := Straight.left rest (by simpa using h)
  rw [follow]
  split
  · rename_i hup
    have hpart : part = up := by simpa using hup
    subst hpart
    have habove : isAbove (directory ++ [up]) = true := by
      simp [isAbove_concat, isAbove_of_straight hstep]
    rw [get?_above habove, (straight_concat hstep).2 rfl, if_neg (by decide)]
  · rfl

/-- A straight path leads to the place of its name, if to any. -/
theorem follow_found {t : Tree} {rest : Path} : ∀ {d place : Path} {node : Node},
    Straight (d ++ rest) → t.get? d = some .directory →
    t.follow d rest = .found place node →
    place = d ++ rest ∧ t.get? (d ++ rest) = some node := by
  induction rest with
  | nil =>
    intro d place node _ hdir h
    cases h
    simpa using hdir
  | cons part rest ih =>
    intro d place node hs hdir h
    rw [follow_cons hs] at h
    rw [List.append_cons] at hs
    split at h
    · cases h
    · split at h
      · rename_i hnode
        simpa using ih hs hnode h
      · rename_i content hnode
        split at h
        · rename_i hempty
          cases h
          simpa [List.isEmpty_iff.mp hempty] using hnode
        · cases h
      · split at h <;> cases h

/-- A path leads to a free place only in a directory. -/
theorem follow_free {t : Tree} {rest : Path} : ∀ {d place : Path},
    Straight (d ++ rest) → t.get? d = some .directory →
    t.follow d rest = .free place →
    place = d ++ rest ∧ t.get? (d ++ rest) = none ∧
      t.get? (d ++ rest).dropLast = some .directory := by
  induction rest with
  | nil => intro d place _ _ h; cases h
  | cons part rest ih =>
    intro d place hs hdir h
    rw [follow_cons hs] at h
    rw [List.append_cons] at hs
    split at h
    · cases h
    · split at h
      · rename_i hnode
        simpa using ih hs hnode h
      · split at h <;> cases h
      · rename_i hnode
        split at h
        · rename_i hempty
          cases h
          rw [List.isEmpty_iff.mp hempty]
          exact ⟨rfl, hnode, by simpa using hdir⟩
        · cases h

/-- A path that leads nowhere for want of a directory names no place with a node. -/
theorem follow_nowhere {t : Tree} (ht : Closed t) {rest : Path} : ∀ {d : Path} {fault},
    Straight (d ++ rest) → t.follow d rest = .nowhere fault →
    fault ≠ .nameTooLong → t.get? (d ++ rest) = none := by
  induction rest with
  | nil => intro d fault _ h; cases h
  | cons part rest ih =>
    intro d fault hs h hfault
    rw [follow_cons hs] at h
    rw [List.append_cons] at hs ⊢
    split at h
    · cases h
      exact absurd rfl hfault
    · split at h
      · exact ih hs h hfault
      all_goals
        rename_i hnode
        split at h
        · cases h
        · rename_i hrest
          exact ht.below (by simp [hnode]) (by simpa using hrest)

/-- Directories that are more can only let a path run into a name that is too long. -/
theorem follow_tooLong {t u : Tree} (hdirs : ∀ q, t.get? q = some .directory → u.get? q = some .directory)
    {rest : Path} : ∀ {d : Path}, Straight (d ++ rest) →
    t.follow d rest = .nowhere .nameTooLong →
    u.follow d rest = .nowhere .nameTooLong := by
  induction rest with
  | nil => intro d _ h; cases h
  | cons part rest ih =>
    intro d hs h
    rw [follow_cons hs] at h ⊢
    rw [List.append_cons] at hs
    split at h
    · rename_i hlong
      rw [if_pos hlong]
    · rename_i hshort
      rw [if_neg hshort]
      split at h
      · rename_i hnode
        rw [hdirs _ hnode]
        exact ih hs h
      all_goals split at h <;> cases h

/-! ## Looking a path up -/

theorem locate_cases (t : Tree) (p : Path) :
    (p.any hasNull = true ∧ t.locate p = .nowhere .nullCharacter) ∨
      (p.any hasNull = false ∧ pathLimit < (Path.text p).utf8ByteSize ∧
        t.locate p = .nowhere .nameTooLong) ∨
      (p.any hasNull = false ∧ (Path.text p).utf8ByteSize ≤ pathLimit ∧
        t.locate p = t.follow [] p) := by
  unfold locate
  split
  · rename_i hnull
    exact .inl ⟨hnull, rfl⟩
  · rename_i hnull
    rw [Bool.not_eq_true] at hnull
    split
    · rename_i hlong
      exact .inr (.inl ⟨hnull, hlong, rfl⟩)
    · rename_i hshort
      exact .inr (.inr ⟨hnull, Nat.le_of_not_lt hshort, rfl⟩)

theorem get?_nil (t : Tree) : t.get? [] = some .directory := rfl

theorem locate_found {t : Tree} {p place : Path} {node : Node} (hp : Straight p)
    (h : t.locate p = .found place node) :
    place = p ∧ t.get? p = some node ∧ p.any hasNull = false := by
  rcases locate_cases t p with ⟨-, he⟩ | ⟨-, -, he⟩ | ⟨hnull, -, he⟩ <;> rw [he] at h
  · cases h
  · cases h
  · obtain ⟨hplace, hnode⟩ := follow_found (d := []) hp (get?_nil t) h
    exact ⟨hplace, hnode, hnull⟩

theorem locate_free {t : Tree} {p place : Path} (hp : Straight p) (h : t.locate p = .free place) :
    place = p ∧ t.get? p = none ∧ t.get? p.dropLast = some .directory ∧ p.any hasNull = false := by
  rcases locate_cases t p with ⟨-, he⟩ | ⟨-, -, he⟩ | ⟨hnull, -, he⟩ <;> rw [he] at h
  · cases h
  · cases h
  · obtain ⟨hplace, hnone, hin⟩ := follow_free (d := []) hp (get?_nil t) h
    exact ⟨hplace, hnone, hin, hnull⟩

/-- What can be asked for is there if and only if its place holds a node. -/
theorem probe_ok {t : Tree} (ht : Closed t) {p : Path} (hp : Straight p) {there : Bool}
    (h : t.probe p = .ok there) : there = (!p.any hasNull && (t.get? p).isSome) := by
  unfold probe at h
  split at h
  · rename_i place node he
    obtain ⟨-, hnode, hnull⟩ := locate_found hp he
    cases h
    simp [hnode, hnull]
  · cases h
  · rename_i hfound hlong
    cases h
    rcases locate_cases t p with ⟨hnull, -⟩ | ⟨-, -, he⟩ | ⟨-, -, he⟩
    · simp [hnull]
    · exact absurd he hlong
    · have hnone : t.get? p = none := by
        cases htarget : t.follow [] p with
        | found place node => exact absurd (he.trans htarget) (hfound place node)
        | free place => exact (follow_free (d := []) hp (get?_nil t) htarget).2.1
        | nowhere fault =>
          refine follow_nowhere ht (d := []) hp htarget fun hfault => ?_
          exact hlong (he.trans (hfault ▸ htarget))
      simp [hnone]

/-- What could be asked for later could be asked for before there were more directories. -/
theorem probe_before {t u : Tree} (ht : Closed t) (hu : Closed u)
    (hdirs : ∀ q, t.get? q = some .directory → u.get? q = some .directory) {p : Path}
    (hp : Straight p) (hsame : u.get? p = t.get? p) {there : Bool} (h : u.probe p = .ok there) :
    t.probe p = .ok there := by
  have hlong : t.locate p ≠ .nowhere .nameTooLong := by
    intro hlong
    have hu : u.locate p = .nowhere .nameTooLong := by
      rcases locate_cases t p with ⟨-, he⟩ | ⟨hnull, hsize, -⟩ | ⟨hnull, hsize, he⟩
      · rw [he] at hlong
        cases hlong
      · simp [locate, hnull, hsize]
      · rw [he] at hlong
        have := follow_tooLong hdirs (d := []) hp hlong
        simp only [locate, hnull, Bool.false_eq_true, if_false, this]
        simp
    simp [probe, hu] at h
  obtain ⟨there', hthere⟩ : ∃ there', t.probe p = .ok there' := by
    unfold probe
    split
    · exact ⟨_, rfl⟩
    · exact absurd ‹_› hlong
    · exact ⟨_, rfl⟩
  rw [hthere, probe_ok ht hp hthere, probe_ok hu hp h, hsame]

end SchemaScaffold.Tree
