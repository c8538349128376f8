import SchemaScaffold.Proofs.Project.Trees

/-!
Trees that only grow. Writing files makes directories and puts files into them, so what a path led to
it still leads to, whichever way it goes there; the text of a file changes only where a file of its
name was written. None of this asks for a straight path.
-/

namespace SchemaScaffold.Tree

open SchemaScaffold.Path

variable {names : List String} {t u v : Tree}

/-- Every node is still there, a directory as a directory and a file as a file. Only files of the
given names may hold something else. -/
structure Grew (names : List String) (t u : Tree) : Prop where
  kept : ∀ q node, t.get? q = some node → ∃ node', u.get? q = some node' ∧
    node'.isDirectory = node.isDirectory ∧ (name q ∉ names → node' = node)

theorem Grew.refl (t : Tree) : Grew names t t := ⟨fun _ node h => ⟨node, h, rfl, fun _ => rfl⟩⟩

theorem Grew.trans (h : Grew names t u) (k : Grew names u v) : Grew names t v := by
  refine ⟨fun q node hnode => ?_⟩
  obtain ⟨node', hnode', hkind, hsame⟩ := h.kept q node hnode
  obtain ⟨node'', hnode'', hkind', hsame'⟩ := k.kept q node' hnode'
  exact ⟨node'', hnode'', hkind'.trans hkind, fun hq => (hsame' hq).trans (hsame hq)⟩

theorem Grew.weaken {more : List String} (h : Grew names t u) (hmore : names ⊆ more) :
    Grew more t u := by
  refine ⟨fun q node hnode => ?_⟩
  obtain ⟨node', hnode', hkind, hsame⟩ := h.kept q node hnode
  exact ⟨node', hnode', hkind, fun hq => hsame fun hmem => hq (hmore hmem)⟩

theorem Node.eq_directory {node : Node} (h : node.isDirectory = true) : node = .directory := by
  cases node with
  | directory => rfl
  | file content => cases h

theorem Grew.directory (h : Grew names t u) {q : Path} (hq : t.get? q = some .directory) :
    u.get? q = some .directory := by
  obtain ⟨node, hnode, hkind, -⟩ := h.kept q _ hq
  rw [hnode, Node.eq_directory hkind]

/-- A node put where no directory is. -/
theorem grew_insert {place : Path} {node : Node} (hplace : t.get? place ≠ some .directory)
    (hover : ∀ old, t.get? place = some old → node.isDirectory = false ∧ name place ∈ names) :
    Grew names t (t.insert place node) := by
  refine ⟨fun q old hold => ?_⟩
  rw [get?_insert (isAbove_eq_false hplace)]
  split
  · rename_i hq
    subst hq
    obtain ⟨hfile, hmem⟩ := hover old hold
    have hkind : old.isDirectory = false := by
      cases old with
      | directory => exact absurd hold hplace
      | file content => rfl
    exact ⟨node, rfl, hfile.trans hkind.symm, fun hnot => absurd hmem hnot⟩
  · exact ⟨old, hold, rfl, fun _ => rfl⟩

/-! ## Where paths lead -/

/-- A path of which something is left to go ends with the last step of what is left. -/
theorem name_cons {part : String} {rest : Path} (h : rest.isEmpty = false) :
    name (part :: rest) = name rest := by
  cases rest with
  | nil => cases h
  | cons next rest => rw [name, name, List.getLast?_cons_cons]

theorem name_concat (p : Path) (part : String) : name (p ++ [part]) = part := by
  rw [name, List.getLast?_concat]
  rfl

theorem follow_step (t : Tree) (d : Path) (part : String) (rest : Path) :
    t.follow d (part :: rest) =
      if part = up then t.follow d.parent rest
      else if nameLimit < part.utf8ByteSize then .nowhere .nameTooLong
      else
        match t.get? (d ++ [part]) with
        | some .directory => t.follow (d ++ [part]) rest
        | some (.file content) =>
          if rest.isEmpty then .found (d ++ [part]) (.file content) else .nowhere .notDirectory
        | none => if rest.isEmpty then .free (d ++ [part]) else .nowhere .missing := by
  rw [follow]
  by_cases hup : part = up
  · rw [if_pos hup]
    exact if_pos (beq_iff_eq.mpr hup)
  · rw [if_neg hup]
    exact if_neg (mt beq_iff_eq.mp hup)

/-- What a path leads to whose last step goes down: a free place, or a file. -/
def ending (place : Path) : Option Content → Target
  | none => .free place
  | some content => .found place (.file content)

theorem follow_up (t : Tree) (d rest : Path) : t.follow d (up :: rest) = t.follow d.parent rest := by
  rw [follow_step, if_pos rfl]

section Steps

variable {d place : Path} {part : String} {rest : Path}

theorem follow_down (hup : part ≠ up) (hshort : part.utf8ByteSize ≤ nameLimit)
    (hdir : t.get? (d ++ [part]) = some .directory) :
    t.follow d (part :: rest) = t.follow (d ++ [part]) rest := by
  rw [follow_step, if_neg hup, if_neg (Nat.not_lt.mpr hshort), hdir]

theorem follow_ending (hup : part ≠ up) (hshort : part.utf8ByteSize ≤ nameLimit)
    (content : Option Content) (hnode : t.get? (d ++ [part]) = content.map .file) :
    t.follow d [part] = ending (d ++ [part]) content := by
  rw [follow_step, if_neg hup, if_neg (Nat.not_lt.mpr hshort), hnode]
  cases content <;> rfl

/-- A path that does not fail goes up, goes down into a directory, or ends at a file or a free place. -/
theorem follow_cases {target : Target} (h : t.follow d (part :: rest) = target)
    (hfault : ∀ fault, target ≠ .nowhere fault) :
    (part = up ∧ t.follow d.parent rest = target) ∨
    part ≠ up ∧ part.utf8ByteSize ≤ nameLimit ∧
      ((t.get? (d ++ [part]) = some .directory ∧ t.follow (d ++ [part]) rest = target) ∨
        rest = [] ∧ ∃ content, target = ending (d ++ [part]) content ∧
          t.get? (d ++ [part]) = content.map .file) := by
  rw [follow_step] at h
  split at h
  · rename_i hup
    exact .inl ⟨hup, h⟩
  · rename_i hup
    refine .inr ⟨hup, ?_⟩
    split at h
    · exact absurd h.symm (hfault _)
    · rename_i hshort
      refine ⟨Nat.le_of_not_lt hshort, ?_⟩
      split at h
      · rename_i hdir
        exact .inl ⟨hdir, h⟩
      · rename_i content hfile
        split at h
        · rename_i hrest
          exact .inr ⟨List.isEmpty_iff.mp hrest, some content, h.symm, hfile⟩
        · exact absurd h.symm (hfault _)
      · rename_i hnone
        split at h
        · rename_i hrest
          exact .inr ⟨List.isEmpty_iff.mp hrest, none, h.symm, hnone⟩
        · exact absurd h.symm (hfault _)

end Steps

theorem ending_ne (place : Path) (content : Option Content) (fault : FileFault) :
    ending place content ≠ .nowhere fault := by
  cases content <;> exact nofun

/-- Such a place has the name of the path. -/
theorem follow_last {content : Option Content} {rest : Path} : ∀ {d place : Path},
    t.follow d rest = ending place content →
      t.get? place = content.map .file ∧ name place = name rest := by
  induction rest with
  | nil => cases content <;> exact fun {_ _} h => nomatch h
  | cons part rest ih =>
    intro d place h
    -- as long as there is more to go, this step does not give the name
    have hfurther : ∀ {d : Path}, t.follow d rest = ending place content →
        t.get? place = content.map .file ∧ name place = name (part :: rest) := by
      intro d h
      obtain ⟨hnode, hname⟩ := ih h
      refine ⟨hnode, hname.trans (name_cons ?_).symm⟩
      cases rest with
      | nil => cases content <;> cases h
      | cons => rfl
    rcases follow_cases h (ending_ne _ _) with
      ⟨-, h⟩ | ⟨-, -, ⟨-, h⟩ | ⟨rfl, content', hending, hnode⟩⟩
    · exact hfurther h
    · exact hfurther h
    · cases content <;> cases content' <;> cases hending <;> exact ⟨hnode, name_concat _ _⟩

/-- What a path leads to, it leads to in a tree that has grown. -/
theorem Grew.follow (h : Grew names t u) {rest : Path} : ∀ {d place : Path} {node : Node},
    t.follow d rest = .found place node → ∃ node', u.follow d rest = .found place node' ∧
      node'.isDirectory = node.isDirectory ∧ (name place ∉ names → node' = node) := by
  induction rest with
  | nil =>
    intro d place node hfollow
    cases hfollow
    exact ⟨.directory, rfl, rfl, fun _ => rfl⟩
  | cons part rest ih =>
    intro d place node hfollow
    rcases follow_cases hfollow nofun with
      ⟨rfl, hfollow⟩ | ⟨hup, hshort, ⟨hdir, hfollow⟩ | ⟨rfl, content, hending, hnode⟩⟩
    · rw [follow_up]
      exact ih hfollow
    · rw [follow_down hup hshort (h.directory hdir)]
      exact ih hfollow
    · cases content with
      | none => cases hending
      | some content =>
        cases hending
        obtain ⟨node', hnode', hkind, hsame⟩ := h.kept _ _ hnode
        cases node' with
        | directory => cases hkind
        | file content' =>
          exact ⟨.file content', follow_ending hup hshort (some content') hnode', hkind, hsame⟩

/-- A file put where a path ends is found there. -/
theorem follow_insert {place : Path} {old : Option Content} {content : Content} {rest : Path} :
    ∀ {d : Path}, t.follow d rest = ending place old →
      (t.insert place (.file content)).follow d rest = .found place (.file content) := by
  induction rest with
  | nil => cases old <;> exact fun {_} h => nomatch h
  | cons part rest ih =>
    intro d h
    have hplace : t.get? place ≠ some .directory := by
      rw [(follow_last h).1]
      cases old <;> exact nofun
    have habove : isAbove place = false := isAbove_eq_false hplace
    -- the directories on the way are not the place, so they are there as before
    rcases follow_cases h (ending_ne _ _) with
      ⟨rfl, h⟩ | ⟨hup, hshort, ⟨hdir, h⟩ | ⟨rfl, old', hending, -⟩⟩
    · rw [follow_up]
      exact ih h
    · have hother : d ++ [part] ≠ place := by
        rintro rfl
        exact hplace hdir
      rw [follow_down hup hshort (by rw [get?_insert habove, if_neg hother, hdir])]
      exact ih h
    · have hhere : d ++ [part] = place := by
        cases old <;> cases old' <;> cases hending <;> rfl
      subst hhere
      refine follow_ending hup hshort (some content) ?_
      rw [get?_insert habove, if_pos rfl, Option.map_some]

/-- On the way to anything there are directories. -/
theorem follow_front {a b : Path} (hb : b ≠ []) : ∀ {d place : Path} {node : Node},
    t.follow d (a ++ b) = .found place node → ∃ place', t.follow d a = .found place' .directory := by
  induction a with
  | nil => exact fun {d} _ _ _ => ⟨d, rfl⟩
  | cons part a ih =>
    intro d place node h
    rw [List.cons_append] at h
    rcases follow_cases h nofun with ⟨rfl, h⟩ | ⟨hup, hshort, ⟨hdir, h⟩ | ⟨hrest, -⟩⟩
    · rw [follow_up]
      exact ih h
    · rw [follow_down hup hshort hdir]
      exact ih h
    · exact absurd (List.append_eq_nil_iff.mp hrest).2 hb

/-- A name is found too long only if it is one, -/
theorem follow_long {rest : Path} : ∀ {d : Path}, t.follow d rest = .nowhere .nameTooLong →
    ∃ part ∈ rest, nameLimit < part.utf8ByteSize := by
  induction rest with
  | nil =>
    intro d h
    cases h
  | cons part rest ih =>
    intro d h
    have hfurther : ∀ {d : Path}, t.follow d rest = .nowhere .nameTooLong →
        ∃ part' ∈ part :: rest, nameLimit < part'.utf8ByteSize := by
      intro d h
      obtain ⟨part', hmem, hlong⟩ := ih h
      exact ⟨part', List.mem_cons_of_mem _ hmem, hlong⟩
    rw [follow_step] at h
    split at h
    · exact hfurther h
    · split at h
      · exact ⟨part, List.mem_cons_self, ‹_›⟩
      · split at h
        · exact hfurther h
        all_goals split at h <;> cases h

/-- and no name on the way to anything is. -/
theorem follow_short {rest : Path} : ∀ {d place : Path} {node : Node},
    t.follow d rest = .found place node → ∀ part ∈ rest, part.utf8ByteSize ≤ nameLimit := by
  induction rest with
  | nil => exact fun {_ _ _} _ _ hmem => absurd hmem List.not_mem_nil
  | cons part rest ih =>
    intro d place node h
    rw [List.forall_mem_cons]
    rcases follow_cases h nofun with ⟨rfl, h⟩ | ⟨-, hshort, ⟨-, h⟩ | ⟨rfl, -⟩⟩
    · exact ⟨by decide, ih h⟩
    · exact ⟨hshort, ih h⟩
    · exact ⟨hshort, nofun⟩

/-! ## Looking paths up -/

/-- Looking a path up differs between two trees only in how it is followed. -/
theorem locate_of_follow {p : Path} {target : Target} (h : t.locate p = target)
    (hfault : ∀ fault, target ≠ .nowhere fault) : t.follow [] p = target ∧
      ∀ {w : Tree}, w.locate p = w.follow [] p := by
  rcases locate_cases t p with ⟨-, he⟩ | ⟨-, -, he⟩ | ⟨hnull, hshort, he⟩
  · exact absurd (h.symm.trans he) (hfault _)
  · exact absurd (h.symm.trans he) (hfault _)
  · refine ⟨he.symm.trans h, fun {w} => ?_⟩
    rw [locate, if_neg (by simp [hnull]), if_neg (Nat.not_lt.mpr hshort)]

theorem locate_ending {p place : Path} (content : Option Content)
    (h : t.locate p = ending place content) :
    t.get? place = content.map .file ∧ name place = name p :=
  follow_last (locate_of_follow h (ending_ne _ _)).1

theorem Grew.locate (h : Grew names t u) {p place : Path} {node : Node}
    (hlocate : t.locate p = .found place node) : ∃ node', u.locate p = .found place node' ∧
      node'.isDirectory = node.isDirectory ∧ (name place ∉ names → node' = node) := by
  obtain ⟨hfollow, hany⟩ := locate_of_follow hlocate nofun
  rw [hany]
  exact h.follow hfollow

theorem probe_true {p : Path} : t.probe p = .ok true ↔ ∃ place node, t.locate p = .found place node := by
  rw [Tree.probe]
  cases t.locate p with
  | found place node => simp
  | free place => simp
  | nowhere fault => cases fault <;> simp

/-- A path is no shorter than its front. -/
theorem text_front {a : Path} (ha : a ≠ []) (b : Path) :
    (Path.text a).utf8ByteSize ≤ (Path.text (a ++ b)).utf8ByteSize := by
  have hjoin : ∀ (first : String) (rest : Path), ∃ more, "/".intercalate (first :: (rest ++ b)) =
      "/".intercalate (first :: rest) ++ more := by
    intro first rest
    induction rest generalizing first with
    | nil =>
      cases b with
      | nil => exact ⟨"", by simp⟩
      | cons second b =>
        refine ⟨"/" ++ "/".intercalate (second :: b), ?_⟩
        rw [List.nil_append, String.intercalate_cons_cons, String.intercalate_singleton,
          String.append_assoc]
    | cons second rest ih =>
      obtain ⟨more, hmore⟩ := ih second
      refine ⟨more, ?_⟩
      rw [List.cons_append, String.intercalate_cons_cons, String.intercalate_cons_cons, hmore]
      simp only [String.append_assoc]
  obtain ⟨first, rest, rfl⟩ := List.exists_cons_of_ne_nil ha
  obtain ⟨more, hmore⟩ := hjoin first rest
  rw [Path.text, Path.text, if_neg (by simp), if_neg (by simp), List.cons_append, hmore,
    String.utf8ByteSize_append]
  omega

theorem probe_front {a b : Path} (hb : b ≠ []) (h : t.probe (a ++ b) = .ok true) :
    ∃ place, t.locate a = .found place .directory := by
  obtain ⟨place, node, hlocate⟩ := probe_true.mp h
  have hfollow := (locate_of_follow hlocate nofun).1
  rcases locate_cases t (a ++ b) with ⟨-, he⟩ | ⟨-, -, he⟩ | ⟨hnull, hshort, -⟩
  · rw [he] at hlocate
    cases hlocate
  · rw [he] at hlocate
    cases hlocate
  · by_cases ha : a = []
    · exact ⟨[], by rw [ha]; rfl⟩
    · obtain ⟨place', hfront⟩ := follow_front hb hfollow
      rw [List.any_append, Bool.or_eq_false_iff] at hnull
      refine ⟨place', ?_⟩
      rw [locate, if_neg (by simp [hnull.1]), if_neg (Nat.not_lt.mpr (Nat.le_trans (text_front ha b) hshort))]
      exact hfront

theorem Grew.probe (h : Grew names t u) {p : Path} (hp : t.probe p = .ok true) :
    u.probe p = .ok true := by
  obtain ⟨place, node, hlocate⟩ := probe_true.mp hp
  obtain ⟨node', hlocate', -⟩ := h.locate hlocate
  exact probe_true.mpr ⟨place, node', hlocate'⟩

/-- Where a text is read. -/
theorem read_some_iff {p : Path} {text : String} : t.read p = .ok (some text) ↔
    ∃ place s, t.locate p = .found place (.file (.text s)) ∧ Text.withLineFeeds s = text := by
  rw [Tree.read]
  cases t.locate p with
  | found place node =>
    cases node with
    | directory => simp
    | file content => cases content <;> simp
  | free place => simp
  | nowhere fault => simp

/-- A text is read as before unless a file of its name was written. -/
theorem Grew.read (h : Grew names t u) {p : Path} (hname : name p ∉ names) {text : String}
    (hread : t.read p = .ok (some text)) : u.read p = .ok (some text) := by
  obtain ⟨place, s, hlocate, htext⟩ := read_some_iff.mp hread
  obtain ⟨node', hlocate', -, hsame⟩ := h.locate hlocate
  have hplace := (locate_ending (some (.text s)) hlocate).2
  rw [hsame (hplace ▸ hname)] at hlocate'
  exact read_some_iff.mpr ⟨place, s, hlocate', htext⟩

/-! ## Making directories and writing files -/

theorem grew_makeDirectory {p : Path} (h : t.makeDirectory p = .ok u) : Grew names t u := by
  unfold makeDirectory at h
  split at h
  · cases h
    exact .refl t
  · cases h
  · rename_i place he
    cases h
    have hnone : t.get? place = none := (locate_ending none he).1
    refine grew_insert (by simp [hnone]) fun old hold => ?_
    rw [hnone] at hold
    cases hold
  · cases h

/-- A file is put where its path ends. -/
theorem write_insert {p : Path} {s : String} (h : t.write p s = .ok u) : ∃ place old,
    t.locate p = ending place old ∧ u = t.insert place (.file (.text s)) := by
  unfold write at h
  split at h
  · rename_i place old he
    exact ⟨place, some old, he, (Except.ok.inj h).symm⟩
  · rename_i place he
    exact ⟨place, none, he, (Except.ok.inj h).symm⟩
  · cases h
  · cases h

/-- A file that was written is found. -/
theorem locate_write {p : Path} {s : String} (h : t.write p s = .ok u) :
    ∃ place, u.locate p = .found place (.file (.text s)) := by
  obtain ⟨place, old, hending, rfl⟩ := write_insert h
  obtain ⟨hfollow, hany⟩ := locate_of_follow hending (ending_ne _ _)
  exact ⟨place, hany.trans (follow_insert hfollow)⟩

/-- So it is read back, and the tree grew by it. -/
theorem grew_write {p : Path} {s : String} (h : t.write p s = .ok u) :
    Grew [name p] t u ∧ u.read p = .ok (some (Text.withLineFeeds s)) := by
  obtain ⟨found, hfound⟩ := locate_write h
  refine ⟨?_, read_some_iff.mpr ⟨found, s, hfound, rfl⟩⟩
  obtain ⟨place, old, hending, rfl⟩ := write_insert h
  obtain ⟨hnode, hname⟩ := locate_ending old hending
  refine grew_insert ?_ fun _ _ => ⟨rfl, by simp [hname]⟩
  rw [hnode]
  cases old <;> exact nofun

/-- A path of short names is asked for in any tree as in another that has the same node there. -/
theorem probe_same (ht : Closed t) (hu : Closed u) {p : Path} (hp : Straight p)
    (hshort : ∀ part ∈ p, part.utf8ByteSize ≤ nameLimit) (hsame : u.get? p = t.get? p) {there : Bool}
    (h : t.probe p = .ok there) : u.probe p = .ok there := by
  have hok : ∃ there', u.probe p = .ok there' := by
    unfold Tree.probe
    split
    · exact ⟨_, rfl⟩
    · rename_i hlong
      rcases locate_cases u p with ⟨-, he⟩ | ⟨hnull, hsize, -⟩ | ⟨-, -, he⟩
      · rw [he] at hlong
        cases hlong
      · have hlong : t.locate p = .nowhere .nameTooLong := by
          rw [Tree.locate, if_neg (by simp [hnull]), if_pos hsize]
        rw [Tree.probe, hlong] at h
        cases h
      · obtain ⟨part, hmem, hpart⟩ := follow_long (he.symm.trans hlong)
        exact absurd (hshort part hmem) (Nat.not_le.mpr hpart)
    · exact ⟨_, rfl⟩
  obtain ⟨there', hthere⟩ := hok
  rw [hthere, probe_ok hu hp hthere, probe_ok ht hp h, hsame]

/-- A path that leads to nothing, but does after the tree has grown, had no node at its place. -/
theorem none_of_missing {names : List String} {t u : Tree} (ht : Closed t) (h : Grew names t u)
    {p : Path} (hp : Straight p) (hmissing : t.exists? p = false)
    (hthere : ∃ place node, u.locate p = .found place node) : t.get? p = none := by
  obtain ⟨place, node, hfound⟩ := hthere
  obtain ⟨hfollow, hany⟩ := locate_of_follow hfound nofun
  have hok : t.probe p = .ok false := by
    rw [Tree.exists?] at hmissing
    rw [Tree.probe]
    cases htarget : t.locate p with
    | found place node =>
      rw [htarget] at hmissing
      cases hmissing
    | free place => rfl
    | nowhere fault =>
      cases fault with
      | nameTooLong =>
        rw [hany] at htarget
        rw [follow_tooLong (fun q => h.directory) (d := []) hp htarget] at hfollow
        cases hfollow
      | _ => rfl
  have hnull := (locate_found hp hfound).2.2
  simpa [hnull] using probe_ok ht hp hok

theorem probe_of_read {p : Path} {text : String} (h : t.read p = .ok (some text)) :
    t.probe p = .ok true := by
  obtain ⟨place, s, hlocate, -⟩ := read_some_iff.mp h
  exact probe_true.mpr ⟨place, _, hlocate⟩

end SchemaScaffold.Tree
