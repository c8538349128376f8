import SchemaScaffold.Proofs.Project.Growth

/-!
What operations change in a tree, whichever way their paths go. A path may take steps back; what it
ends at is its normal form, and the directories that are made for it are those that it goes through.
-/

namespace SchemaScaffold

open SchemaScaffold.Path

namespace Path

/-- One step of a path from a directory. -/
def step (directory : Path) (part : String) : Path :=
  if part == up then parent directory else directory ++ [part]

/-- A place that a path goes through. -/
def Through (p q : Path) : Prop := ∃ front, front <+: p ∧ q = normalize front

theorem Through.weaken {p p' q : Path} (h : Through p q) (hpre : p <+: p') : Through p' q := by
  obtain ⟨front, hfront, rfl⟩ := h
  exact ⟨front, hfront.trans hpre, rfl⟩

/-- A path that ends with a name leads to a place of that name. -/
theorem normalize_named {p : Path} {part : String} (h : part ≠ up) :
    normalize (p ++ [part]) = normalize p ++ [part] := by
  rw [normalize_concat, if_neg (by simpa using h)]

/-- A directory that a path steps down into, and goes on from. -/
def Enters (p front : Path) : Prop :=
  ∃ before part after, p = before ++ part :: after ∧ part ≠ up ∧ after ≠ [] ∧
    front = before ++ [part]

theorem enters_cons {part : String} {rest front : Path} : Enters (part :: rest) front ↔
    (part ≠ up ∧ rest ≠ [] ∧ front = [part]) ∨ ∃ front', Enters rest front' ∧ front = part :: front' := by
  constructor
  · rintro ⟨before, last, after, hp, hup, hafter, rfl⟩
    cases before with
    | nil =>
      obtain ⟨rfl, rfl⟩ := List.cons.inj hp
      exact .inl ⟨hup, hafter, rfl⟩
    | cons first before =>
      obtain ⟨rfl, rfl⟩ := List.cons.inj hp
      exact .inr ⟨_, ⟨before, last, after, rfl, hup, hafter, rfl⟩, rfl⟩
  · rintro (⟨hup, hrest, rfl⟩ | ⟨_, ⟨before, last, after, rfl, hup, hafter, rfl⟩, rfl⟩)
    · exact ⟨[], part, rest, rfl, hup, hrest, rfl⟩
    · exact ⟨part :: before, last, after, rfl, hup, hafter, rfl⟩

theorem not_enters_nil (front : Path) : ¬ Enters [] front := by
  rintro ⟨before, part, after, hp, -⟩
  cases before <;> cases hp

theorem Enters.front {p front : Path} (h : Enters p front) : front <+: p ∧ front ≠ p := by
  obtain ⟨before, part, after, rfl, -, hafter, rfl⟩ := h
  refine ⟨⟨after, by simp⟩, fun he => hafter ?_⟩
  simpa using he

end Path

namespace Tree

variable {t u v : Tree} {p q : Path} {text : String}

/-- A path ends at its normal form. -/
theorem follow_place {content : Option Content} {rest : Path} : ∀ {d place : Path},
    t.follow d rest = ending place content → place = rest.foldl step d := by
  induction rest with
  | nil => cases content <;> exact fun {_ _} h => nomatch h
  | cons part rest ih =>
    intro d place h
    rw [List.foldl_cons, step]
    rcases follow_cases h (ending_ne _ _) with
      ⟨rfl, h⟩ | ⟨hup, -, ⟨-, h⟩ | ⟨rfl, content', hending, -⟩⟩
    · rw [if_pos (beq_self_eq_true up)]
      exact ih h
    · rw [if_neg (by simpa using hup)]
      exact ih h
    · rw [if_neg (by simpa using hup)]
      cases content <;> cases content' <;> cases hending <;> rfl

theorem locate_place (content : Option Content) {place : Path}
    (h : t.locate p = ending place content) : place = normalize p :=
  follow_place (locate_of_follow h (ending_ne _ _)).1

/-- A path that ends somewhere enters only directories. -/
theorem follow_way {content : Option Content} {rest : Path} : ∀ {d place front : Path},
    t.follow d rest = ending place content → Enters rest front →
      t.get? (front.foldl step d) = some .directory := by
  induction rest with
  | nil => exact fun _ hfront => absurd hfront (not_enters_nil _)
  | cons part rest ih =>
    intro d place front h hfront
    rcases follow_cases h (ending_ne _ _) with ⟨rfl, h⟩ | ⟨hup, -, ⟨hdir, h⟩ | ⟨rfl, -⟩⟩ <;>
      rcases enters_cons.mp hfront with ⟨hdown, hrest, rfl⟩ | ⟨front, hlater, rfl⟩
    · exact absurd rfl hdown
    · rw [List.foldl_cons, step, if_pos (beq_self_eq_true up)]
      exact ih h hlater
    · rw [List.foldl_cons, step, if_neg (by simpa using hup)]
      exact hdir
    · rw [List.foldl_cons, step, if_neg (by simpa using hup)]
      exact ih h hlater
    · exact absurd rfl hrest
    · exact absurd hlater (not_enters_nil _)

/-- A path of names that are not too long leads nowhere only where it enters no directory. -/
theorem follow_blocked {rest : Path} : ∀ {d : Path} {fault : FileFault},
    t.follow d rest = .nowhere fault → fault ≠ .nameTooLong →
      ∃ front, Enters rest front ∧ t.get? (front.foldl step d) ≠ some .directory := by
  induction rest with
  | nil => exact fun h _ => nomatch h
  | cons part rest ih =>
    intro d fault h hfault
    have hfurther : ∀ {d' : Path}, step d part = d' → t.follow d' rest = .nowhere fault →
        ∃ front, Enters (part :: rest) front ∧ t.get? (front.foldl step d) ≠ some .directory := by
      rintro d' rfl h
      obtain ⟨front, hfront, hnot⟩ := ih h hfault
      exact ⟨part :: front, enters_cons.mpr (.inr ⟨front, hfront, rfl⟩), hnot⟩
    rw [follow_step] at h
    split at h
    · rename_i hup
      exact hfurther (by rw [step, hup, if_pos (beq_self_eq_true up)]) h
    · rename_i hup
      have hstep : step d part = d ++ [part] := if_neg (by simpa using hup)
      split at h
      · cases h
        exact absurd rfl hfault
      · split at h
        · exact hfurther hstep h
        all_goals
          rename_i hnode
          split at h
          · cases h
          · rename_i hrest
            refine ⟨[part], enters_cons.mpr (.inl ⟨hup, by simpa using hrest, rfl⟩), ?_⟩
            rw [List.foldl_cons, List.foldl_nil, hstep, hnode]
            exact nofun

/-- A path that does not lead to the file at its place enters something that is no directory. -/
theorem blocked_of_probe (hnull : p.any hasNull = false) (hprobe : t.probe p = .ok false)
    {content : Content} (hfile : t.get? (normalize p) = some (.file content)) :
    ∃ front, Enters p front ∧ t.get? (normalize front) ≠ some .directory := by
  cases htarget : t.locate p with
  | found place node =>
    rw [probe_true.mpr ⟨place, node, htarget⟩] at hprobe
    cases hprobe
  | free place =>
    have hnone := (locate_ending none htarget).1
    rw [locate_place none htarget, hfile] at hnone
    cases hnone
  | nowhere fault =>
    rcases locate_cases t p with ⟨hnull', -⟩ | ⟨-, -, he⟩ | ⟨-, -, he⟩
    · rw [hnull] at hnull'
      cases hnull'
    · rw [Tree.probe, he] at hprobe
      cases hprobe
    · refine follow_blocked (d := []) (he.symm.trans htarget) ?_
      rintro rfl
      rw [Tree.probe, htarget] at hprobe
      cases hprobe

/-! ## Looking before and after -/

theorem Grew.locate_tooLong {names : List String} (h : Grew names t u) (hp : Straight p)
    (hlong : t.locate p = .nowhere .nameTooLong) : u.locate p = .nowhere .nameTooLong := by
  rcases locate_cases t p with ⟨-, he⟩ | ⟨hnull, hsize, -⟩ | ⟨hnull, hsize, he⟩
  · rw [he] at hlong
    cases hlong
  · rw [Tree.locate, if_neg (by simp [hnull]), if_pos hsize]
  · have hfollow := follow_tooLong (fun q => h.directory) (d := []) hp (he.symm.trans hlong)
    rw [Tree.locate, if_neg (by simp [hnull]), if_neg (Nat.not_lt.mpr hsize), hfollow]

/-- What is missing later was missing before. -/
theorem Grew.probe_before {names : List String} (h : Grew names t u) (hp : Straight p)
    (hmissing : u.probe p = .ok false) : t.probe p = .ok false := by
  cases htarget : t.locate p with
  | found place node =>
    rw [h.probe (probe_true.mpr ⟨place, node, htarget⟩)] at hmissing
    cases hmissing
  | free place => rw [Tree.probe, htarget]
  | nowhere fault =>
    cases fault with
    | nameTooLong =>
      rw [Tree.probe, h.locate_tooLong hp htarget] at hmissing
      cases hmissing
    | _ => rw [Tree.probe, htarget]

/-- What is read later was read before, if it is the same file. -/
theorem Grew.read_before {names : List String} (h : Grew names t u) (ht : t.Closed)
    (hp : Straight p) (hsame : u.get? p = t.get? p) (hread : u.read p = .ok (some text)) :
    t.read p = .ok (some text) := by
  obtain ⟨place, raw, hlocate, htext⟩ := read_some_iff.mp hread
  obtain ⟨rfl, hnode, hnull⟩ := locate_found hp hlocate
  cases htarget : t.locate place with
  | found place' node =>
    obtain ⟨rfl, hnode', -⟩ := locate_found hp htarget
    rw [← hsame, hnode] at hnode'
    cases hnode'
    exact read_some_iff.mpr ⟨_, raw, htarget, htext⟩
  | free place' =>
    have hnone := (locate_free hp htarget).2.1
    rw [← hsame, hnode] at hnone
    cases hnone
  | nowhere fault =>
    by_cases hlong : fault = .nameTooLong
    · rw [hlong] at htarget
      cases (h.locate_tooLong hp htarget).symm.trans hlocate
    · have hprobe : t.probe place = .ok false := by
        rw [Tree.probe, htarget]
        cases fault <;> first | rfl | exact absurd rfl hlong
      have hmissing := probe_ok ht hp hprobe
      rw [hnull, ← hsame, hnode] at hmissing
      cases hmissing

/-- A path that leads somewhere leads there later, if its place holds the same. -/
theorem Grew.locate_same {names : List String} (h : Grew names t u) (hp : Straight p)
    (hsame : u.get? p = t.get? p) {place : Path} {node : Node}
    (hlocate : t.locate p = .found place node) : u.locate p = .found place node := by
  obtain ⟨node', hlater, -⟩ := h.locate hlocate
  obtain ⟨rfl, hnode, -⟩ := locate_found hp hlocate
  obtain ⟨-, hnode', -⟩ := locate_found hp hlater
  rw [hsame, hnode] at hnode'
  cases hnode'
  exact hlater

/-- A path leads to the file at its place if it enters only directories. That none of its names is too
long is known from another tree in which it leads somewhere. -/
theorem locate_of_way (hp : Straight p) {place : Path} {node : Node}
    (hfound : t.locate p = .found place node)
    (hway : ∀ front, Enters p front → u.get? (normalize front) = some .directory) {content : Content}
    (hthere : u.get? (normalize p) = some (.file content)) : u.locate p = .found p (.file content) := by
  obtain ⟨hfollow, hany⟩ := locate_of_follow hfound nofun
  have hshort : u.locate p ≠ .nowhere .nameTooLong := by
    intro hlong
    obtain ⟨part, hpart, hsize⟩ := follow_long (hany.symm.trans hlong)
    exact absurd (follow_short hfollow part hpart) (Nat.not_le.mpr hsize)
  have hprobe : u.probe p ≠ .ok false := by
    intro hprobe
    obtain ⟨front, hfront, hnot⟩ := blocked_of_probe (locate_found hp hfound).2.2 hprobe hthere
    exact hnot (hway front hfront)
  cases hlocate : u.locate p with
  | found place' node' =>
    obtain ⟨rfl, hnode, -⟩ := locate_found hp hlocate
    rw [hp, hnode] at hthere
    cases hthere
    rfl
  | free place' => exact absurd (by rw [Tree.probe, hlocate]) hprobe
  | nowhere fault =>
    refine absurd ?_ hprobe
    rw [Tree.probe, hlocate]
    cases fault <;> first | rfl | exact absurd hlocate hshort

/-! ## Directories on the way -/

/-- Directories were made where nothing was, on the way along a path. -/
structure Paved (t u : Tree) (p : Path) : Prop where
  kept : ∀ q, u.get? q = t.get? q ∨
    (t.get? q = none ∧ u.get? q = some .directory ∧ Through p q)

theorem Paved.refl (t : Tree) (p : Path) : Paved t t p := ⟨fun _ => .inl rfl⟩

theorem Paved.trans (h : Paved t u p) (k : Paved u v p) : Paved t v p := by
  refine ⟨fun q => ?_⟩
  rcases h.kept q with hq | ⟨hnone, hdir, hway⟩ <;> rcases k.kept q with kq | ⟨knone, kdir, kway⟩
  · exact .inl (kq.trans hq)
  · exact .inr ⟨hq ▸ knone, kdir, kway⟩
  · exact .inr ⟨hnone, kq ▸ hdir, hway⟩
  · rw [hdir] at knone
    cases knone

theorem Paved.weaken {p' : Path} (h : Paved t u p) (hpre : p <+: p') : Paved t u p' :=
  ⟨fun q => (h.kept q).imp id fun ⟨hnone, hdir, hway⟩ => ⟨hnone, hdir, hway.weaken hpre⟩⟩

theorem paved_makeDirectory (h : t.makeDirectory p = .ok u) : Paved t u p := by
  unfold makeDirectory at h
  split at h
  · cases h
    exact .refl t p
  · cases h
  · rename_i place he
    cases h
    have hplace : place = normalize p := locate_place none he
    have hnone : t.get? place = none := (locate_ending none he).1
    have habove : isAbove place = false := by
      refine isAbove_eq_false (t := t) ?_
      rw [hnone]
      exact nofun
    refine ⟨fun q => ?_⟩
    rw [get?_insert habove]
    split
    · rename_i hq
      exact .inr ⟨hq ▸ hnone, rfl, p, List.prefix_refl p, hq.trans hplace⟩
    · exact .inl rfl
  · cases h

/-! ## A file that is written -/

/-- A text was written to the place of a path, and directories were made on the way to it. -/
structure Stored (t u : Tree) (p : Path) (text : String) : Prop where
  named : p.any hasNull = false
  way : ∀ front, Enters p front → u.get? (normalize front) = some .directory
  there : u.get? (normalize p) = some (.file (.text text))
  target : t.get? (normalize p) ≠ some .directory
  kept : ∀ q, q ≠ normalize p → u.get? q = t.get? q ∨
    (t.get? q = none ∧ u.get? q = some .directory ∧ Through p.dropLast q)

theorem stored_write (h : t.write p text = .ok u) : Stored t u p text := by
  obtain ⟨place, old, hending, rfl⟩ := write_insert h
  have hplace := locate_place old hending
  have hover : t.get? place ≠ some .directory := by
    rw [(locate_ending old hending).1]
    cases old <;> exact nofun
  have habove : isAbove place = false := isAbove_eq_false hover
  have hnull : p.any hasNull = false := by
    rcases locate_cases t p with ⟨-, he⟩ | ⟨hnull, -⟩ | ⟨hnull, -⟩
    · exact absurd (hending.symm.trans he) (ending_ne _ _ _)
    · exact hnull
    · exact hnull
  subst hplace
  refine ⟨hnull, fun front hfront => ?_, ?_, hover, fun q hq => .inl ?_⟩
  · have hdir : t.get? (normalize front) = some .directory :=
      follow_way (d := []) (locate_of_follow hending (ending_ne _ _)).1 hfront
    have hother : normalize front ≠ normalize p := fun he => hover (he ▸ hdir)
    rw [get?_insert habove, if_neg hother, hdir]
  · rw [get?_insert habove, if_pos rfl]
  · rw [get?_insert habove, if_neg hq]

theorem Paved.stored (h : Paved t u p.dropLast) (k : Stored u v p text) : Stored t v p text := by
  refine ⟨k.named, k.way, k.there, ?_, fun q hq => ?_⟩
  · intro hdir
    rcases h.kept (normalize p) with he | ⟨hnone, -⟩
    · exact k.target (he.trans hdir)
    · rw [hdir] at hnone
      cases hnone
  · rcases h.kept q with he | ⟨hnone, hdir, hway⟩ <;>
      rcases k.kept q hq with ke | ⟨knone, kdir, kway⟩
    · exact .inl (ke.trans he)
    · exact .inr ⟨he ▸ knone, kdir, kway⟩
    · exact .inr ⟨hnone, ke ▸ hdir, hway⟩
    · rw [hdir] at knone
      cases knone

/-- A place where a file was put, over nothing or over another file. -/
def Filed (t u : Tree) (q : Path) : Prop :=
  t.get? q ≠ some .directory ∧ ∃ text, u.get? q = some (.file (.text text))

/-- A place where a missing directory was made, on the way to one of the paths. -/
def Opens (paths : List Path) (t u : Tree) (q : Path) : Prop :=
  t.get? q = none ∧ u.get? q = some .directory ∧ ∃ p ∈ paths, Through p.dropLast q

/-- Nothing changed but files that the paths lead to, and missing directories on the way to them. -/
structure Touched (paths : List Path) (t u : Tree) : Prop where
  kept : ∀ q, u.get? q = t.get? q ∨ (q ∈ paths.map normalize ∧ Filed t u q) ∨ Opens paths t u q

variable {paths : List Path}

theorem Touched.refl (t : Tree) : Touched paths t t := ⟨fun _ => .inl rfl⟩

theorem Touched.trans (h : Touched paths t u) (k : Touched paths u v) : Touched paths t v := by
  refine ⟨fun q => ?_⟩
  rcases h.kept q with hq | ⟨hmem, hover, text, htext⟩ | ⟨hnone, hdir, hway⟩ <;>
    rcases k.kept q with kq | ⟨kmem, kover, text', ktext⟩ | ⟨knone, kdir, kway⟩
  · exact .inl (kq.trans hq)
  · exact .inr (.inl ⟨kmem, hq ▸ kover, text', ktext⟩)
  · exact .inr (.inr ⟨hq ▸ knone, kdir, kway⟩)
  · exact .inr (.inl ⟨hmem, hover, text, kq.trans htext⟩)
  · exact .inr (.inl ⟨kmem, hover, text', ktext⟩)
  · rw [htext] at knone
    cases knone
  · exact .inr (.inr ⟨hnone, kq.trans hdir, hway⟩)
  · exact absurd hdir kover
  · rw [hdir] at knone
    cases knone

theorem Touched.weaken {more : List Path} (h : Touched paths t u) (hmore : paths ⊆ more) :
    Touched more t u := by
  refine ⟨fun q => ?_⟩
  rcases h.kept q with hq | ⟨hmem, hfiled⟩ | ⟨hnone, hdir, p, hp, hway⟩
  · exact .inl hq
  · exact .inr (.inl ⟨List.map_subset _ hmore hmem, hfiled⟩)
  · exact .inr (.inr ⟨hnone, hdir, p, hmore hp, hway⟩)

theorem Paved.touched (h : Paved t u p.dropLast) : Touched [p] t u := by
  refine ⟨fun q => ?_⟩
  rcases h.kept q with hq | ⟨hnone, hdir, hway⟩
  · exact .inl hq
  · exact .inr (.inr ⟨hnone, hdir, p, by simp, hway⟩)

theorem Stored.touched (h : Stored t u p text) : Touched [p] t u := by
  refine ⟨fun q => ?_⟩
  by_cases hq : q = normalize p
  · exact .inr (.inl ⟨by simp [hq], hq ▸ h.target, text, hq ▸ h.there⟩)
  · rcases h.kept q hq with he | ⟨hnone, hdir, hway⟩
    · exact .inl he
    · exact .inr (.inr ⟨hnone, hdir, p, by simp, hway⟩)

/-- Whatever was there is still there, of the same kind. -/
theorem Touched.grew (h : Touched paths t u) :
    Grew (paths.map fun p => name (normalize p)) t u := by
  refine ⟨fun q node hnode => ?_⟩
  rcases h.kept q with hq | ⟨hmem, hover, text, htext⟩ | ⟨hnone, -⟩
  · exact ⟨node, hq.trans hnode, rfl, fun _ => rfl⟩
  · obtain ⟨p, hp, rfl⟩ := List.mem_map.mp hmem
    have hfile : node.isDirectory = false := by
      cases node with
      | directory => exact absurd hnode hover
      | file content => rfl
    exact ⟨_, htext, hfile.symm, fun hname => absurd (List.mem_map_of_mem hp) hname⟩
  · rw [hnode] at hnone
    cases hnone

/-- A file at a place that no path leads to is as it was. -/
theorem Touched.file (h : Touched paths t u) (hq : q ∉ paths.map normalize) {content : Content}
    (hfile : t.get? q = some (.file content)) : u.get? q = some (.file content) := by
  rcases h.kept q with he | ⟨hmem, -⟩ | ⟨hnone, -⟩
  · exact he.trans hfile
  · exact absurd hmem hq
  · rw [hfile] at hnone
    cases hnone

end Tree
end SchemaScaffold
