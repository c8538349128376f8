import Mathlib.Data.List.Perm.Basic
import SchemaScaffold.Proofs.Command.Consent
import SchemaScaffold.Proofs.Naming.Spellings

/-!
The turns of a setup, one after the other. Its files have different names, so no two of them lie at
one place, and what is written at one turn is there at the end. This is why the tree that a setup
leaves tells at which turns something was written, and why the list that it gives tells the same.
-/

namespace SchemaScaffold

open Setup SchemaScaffold.Tree SchemaScaffold.Path

/-! ## The places of the files -/

namespace Path

theorem parse_append (a b : String) : parse (a ++ "/" ++ b) = parse a ++ parse b := by
  have hlist : (a ++ "/" ++ b).toList = a.toList ++ '/' :: b.toList := by
    simp [String.toList_append]
  rw [parse, Text.splitAt, hlist, Text.split_append (· == '/') (beq_self_eq_true '/'), List.map_append,
    List.filter_append]
  rfl

end Path

namespace Setup

/-- Where a file of a setup lies. -/
def Item.place (root : Path) (e : Item) : Path := normalize (e.path root)

/-- The last components of the files of setups. -/
def lastNames : List String :=
  [Project.configFile, "index.ts", Project.schemaFile, envExampleFile, "docker-compose.yml"]

theorem parse_last : ∀ last ∈ lastNames, Path.parse last = [last] := by decide

theorem parse_below (dbPath : String) {last : String} (hlast : last ∈ lastNames) :
    Path.parse (dbPath ++ "/" ++ last) = Path.parse dbPath ++ [last] := by
  rw [Path.parse_append, parse_last last hlast]

theorem indexFile_eq (dbPath : String) : dbPath ++ "/index.ts" = dbPath ++ "/" ++ "index.ts" := by
  rw [String.append_assoc]
  rfl

theorem name_place {root : Path} (directory : Path) {e : Item} {last : String} (hlast : last ∈ lastNames)
    (hparse : Path.parse e.file = directory ++ [last]) : name (e.place root) = last := by
  have hup : last ≠ up := by
    rintro rfl
    revert hlast
    decide
  rw [Item.place, Item.path, hparse, ← List.append_assoc, normalize_named hup, name_concat]

/-- The files of a setup lie at places of different names. -/
theorem names_of_items (root : Path) (options : Options) :
    ((items options).map fun e => name (e.place root)).Sublist lastNames := by
  have hwhole : ∀ {e : Item}, e.file ∈ lastNames → name (e.place root) = e.file :=
    fun hlast => name_place [] hlast (parse_last _ hlast)
  have hbelow : ∀ {e : Item} {last : String}, last ∈ lastNames →
      e.file = options.dbPath ++ "/" ++ last → name (e.place root) = last := by
    intro e last hlast hfile
    refine name_place (Path.parse options.dbPath) hlast ?_
    rw [hfile, parse_below _ hlast]
  have hbefore : (((filesBefore options).map Item.plain).map fun e => name (e.place root)) =
      [Project.configFile, "index.ts", Project.schemaFile] := by
    simp only [filesBefore, List.map_cons, List.map_nil, List.cons.injEq, and_true]
    exact ⟨hwhole (by simp [Item.plain, lastNames]), hbelow (by simp [lastNames]) (indexFile_eq _),
      hbelow (by simp [lastNames]) rfl⟩
  have henv : ((if options.writeEnv then [envItem options] else []).map
      fun e => name (e.place root)).Sublist [envExampleFile] := by
    split
    · rw [List.map_singleton, hwhole (by simp [envItem, lastNames])]
      exact List.Sublist.refl _
    · exact List.nil_sublist _
  have hafter : (((filesAfter options).map Item.plain).map fun e => name (e.place root)).Sublist
      ["docker-compose.yml"] := by
    unfold filesAfter
    split
    · cases composeFile? options.dialect with
      | none => exact List.nil_sublist _
      | some content =>
        simp only [Option.toList_some, List.map_cons, List.map_nil]
        rw [hwhole (by simp [Item.plain, lastNames])]
        exact List.Sublist.refl _
    · exact List.nil_sublist _
  rw [items, List.map_append, List.map_append, hbefore]
  exact ((List.Sublist.refl _).append henv).append hafter

theorem places_nodup (root : Path) (options : Options) :
    ((items options).map (Item.place root)).Nodup := by
  have hnames : (((items options).map (Item.place root)).map name).Nodup := by
    rw [List.map_map]
    exact (names_of_items root options).nodup (by decide)
  exact List.Pairwise.of_map name (fun _ _ hne he => hne (congrArg name he)) hnames

end Setup

namespace Command

variable {root : Path} {options : Setup.Options} {es : List Item} {e e' : Item}
  {s t u v : Session} {text : String}

/-! ## Turns -/

/-- The turn of a file comes, in the session that the turns before it leave; each of them succeeds. -/
inductive Turn (root : Path) (options : Setup.Options) : List Item → Session → Item → Session → Prop
  | here {e : Item} {es : List Item} {s : Session} : Turn root options (e :: es) s e s
  | later {e e' : Item} {es : List Item} {s t u : Session} {names : List String}
    (hrun : writeItem root options e s = .ok names t) (h : Turn root options es t e' u) :
    Turn root options (e :: es) s e' u

/-- A text is written at the turn of a file: there is leave, and storing it succeeds. -/
def Written (root : Path) (options : Setup.Options) (es : List Item) (s : Session) (e : Item)
    (text : String) : Prop :=
  ∃ u, Turn root options es s e u ∧ Leave root options e u text ∧
    Stores (e.path root) text u (after (writeItem root options e) u)

theorem Turn.mem (h : Turn root options es s e u) : e ∈ es := by
  induction h with
  | here => exact List.mem_cons_self
  | later _ _ ih => exact List.mem_cons_of_mem _ ih

/-- A file has one turn. -/
theorem Turn.unique (hnodup : es.Nodup) (h : Turn root options es s e u)
    (k : Turn root options es s e v) : u = v := by
  induction h with
  | here =>
    cases k with
    | here => rfl
    | later _ k => exact absurd k.mem (List.nodup_cons.mp hnodup).1
  | later hrun h ih =>
    cases k with
    | here => exact absurd h.mem (List.nodup_cons.mp hnodup).1
    | later hrun' k =>
      cases hrun.symm.trans hrun'
      exact ih (List.nodup_cons.mp hnodup).2 k

theorem Written.later {names : List String} (hrun : writeItem root options e s = .ok names t)
    (h : Written root options es t e' text) : Written root options (e :: es) s e' text := by
  obtain ⟨u, hturn, hrest⟩ := h
  exact ⟨u, .later hrun hturn, hrest⟩

/-- What a turn does to the tree: it changes the place of its file if it has leave to, and makes
directories on the way. -/
theorem writeItem_kept (root : Path) (hdry : options.dryRun = false) (he : e ∈ items options) (s : Session)
    (q : Path) :
    (after (writeItem root options e) s).tree.get? q = s.tree.get? q ∨
    Opens [e.path root] s.tree (after (writeItem root options e) s).tree q ∨
    (q = e.place root ∧ s.tree.get? q ≠ some .directory ∧ ∃ text, Leave root options e s text ∧
      Stores (e.path root) text s (after (writeItem root options e) s)) := by
  have hopens : ∀ {t : Session}, Paved s.tree t.tree (e.path root).dropLast →
      t.tree.get? q = s.tree.get? q ∨ Opens [e.path root] s.tree t.tree q := by
    intro t hpaved
    exact (hpaved.kept q).imp id fun ⟨hnone, hdir, hway⟩ =>
      ⟨hnone, hdir, e.path root, by simp, hway⟩
  have hwrites : ∀ {t : Session} {text : String}, Leave root options e s text →
      Stores (e.path root) text s t → t.tree.get? q = s.tree.get? q ∨
      Opens [e.path root] s.tree t.tree q ∨
      (q = e.place root ∧ s.tree.get? q ≠ some .directory ∧ ∃ text, Leave root options e s text ∧
        Stores (e.path root) text s t) := by
    intro t text hleave hstores
    by_cases hq : q = e.place root
    · exact .inr (.inr ⟨hq, hq ▸ hstores.stored.target, text, hleave, hstores⟩)
    · rcases hstores.stored.kept q hq with he | ⟨hnone, hdir, hway⟩
      · exact .inl he
      · exact .inr (.inl ⟨hnone, hdir, e.path root, by simp, hway⟩)
  cases hrun : writeItem root options e s with
  | ok names t =>
    rw [after_eq hrun]
    rcases returns_writeItem hdry he hrun with ⟨-, hsame, -⟩ | ⟨text, -, -, -, hleave, hstores⟩
    · exact .inl (by rw [hsame.tree])
    · exact hwrites hleave hstores
  | error failure t =>
    rw [after_eq_error hrun]
    rcases fails_writeItem hdry he hrun with hpaved | ⟨text, hleave, hstores⟩
    · exact (hopens hpaved).imp id .inl
    · exact hwrites hleave hstores

theorem writeItem_touched (root : Path) (hdry : options.dryRun = false) (he : e ∈ items options) (s : Session) :
    Touched [e.path root] s.tree (after (writeItem root options e) s).tree := by
  refine ⟨fun q => ?_⟩
  rcases writeItem_kept root hdry he s q with hq | hopens | ⟨rfl, hover, text, -, hstores⟩
  · exact .inl hq
  · exact .inr (.inr hopens)
  · exact .inr (.inl ⟨by simp [Item.place], hover, text, hstores.stored.there⟩)

/-- The turns before that of a file touch other files only. -/
theorem Turn.touched (hdry : options.dryRun = false) (hes : es ⊆ items options)
    (hplaces : (es.map (Item.place root)).Nodup) (h : Turn root options es s e u) :
    ∃ paths, e.place root ∉ paths.map normalize ∧ Touched paths s.tree u.tree := by
  induction h with
  | here => exact ⟨[], by simp, .refl _⟩
  | @later e e' es s t u names hrun h ih =>
    obtain ⟨he, hes⟩ := List.cons_subset.mp hes
    rw [List.map_cons, List.nodup_cons] at hplaces
    obtain ⟨paths, hother, hrest⟩ := ih hes hplaces.2
    have hstep := writeItem_touched root hdry he s
    rw [after_eq hrun] at hstep
    refine ⟨e.path root :: paths, ?_, ?_⟩
    · rw [List.map_cons, List.mem_cons, not_or]
      refine ⟨fun hq => hplaces.1 ?_, hother⟩
      rw [show e.place root = e'.place root from hq.symm]
      exact List.mem_map_of_mem h.mem
    · exact (hstep.weaken (by simp)).trans (hrest.weaken (List.subset_cons_self _ _))

/-- So the place of the file is as it was, unless a directory was made there. -/
theorem Turn.kept (hdry : options.dryRun = false) (hes : es ⊆ items options)
    (hplaces : (es.map (Item.place root)).Nodup) (h : Turn root options es s e u) :
    u.tree.get? (e.place root) = s.tree.get? (e.place root) ∨
      (s.tree.get? (e.place root) = none ∧ u.tree.get? (e.place root) = some .directory) := by
  obtain ⟨paths, hother, htouched⟩ := h.touched hdry hes hplaces
  rcases htouched.kept (e.place root) with hq | ⟨hmem, -⟩ | ⟨hnone, hdir, -⟩
  · exact .inl hq
  · exact absurd hmem hother
  · exact .inr ⟨hnone, hdir⟩

/-! ## The whole course -/

/-- What the turns of a setup, taken together, do to the tree. -/
structure Course (root : Path) (options : Setup.Options) (es : List Item) (s t : Session) : Prop where
  /-- Only places of files that are written change, and missing directories on the way. -/
  kept : ∀ q, t.tree.get? q = s.tree.get? q ∨ Opens (es.map (·.path root)) s.tree t.tree q ∨
    ∃ e text, Written root options es s e text ∧ q = e.place root ∧ s.tree.get? q ≠ some .directory
  /-- What is written is there at the end. -/
  there : ∀ e text, Written root options es s e text →
    t.tree.get? (e.place root) = some (.file (.text text))
  /-- So are the directories that its path enters. -/
  way : ∀ e text, Written root options es s e text → ∀ front, Enters (e.path root) front →
    t.tree.get? (normalize front) = some .directory

theorem Course.of_failure (hdry : options.dryRun = false) (he : e ∈ items options)
    {failure : Failure} (hrun : writeItem root options e s = .error failure t) :
    Course root options (e :: es) s t := by
  have ht : after (writeItem root options e) s = t := after_eq_error hrun
  constructor
  · intro q
    rcases ht ▸ writeItem_kept root hdry he s q with
      hq | hopens | ⟨hq, hover, text, hleave, hstores⟩
    · exact .inl hq
    · obtain ⟨hnone, hdir, p, hp, hway⟩ := hopens
      rw [List.mem_singleton] at hp
      exact .inr (.inl ⟨hnone, hdir, p, by simp [hp], hway⟩)
    · exact .inr (.inr ⟨e, text, ⟨s, .here, hleave, ht ▸ hstores⟩, hq, hover⟩)
  · rintro e' text ⟨u, hturn, -, hstores⟩
    cases hturn with
    | here => exact ht ▸ hstores.stored.there
    | later hrun' => cases hrun.symm.trans hrun'
  · rintro e' text ⟨u, hturn, -, hstores⟩
    cases hturn with
    | here => exact ht ▸ hstores.stored.way
    | later hrun' => cases hrun.symm.trans hrun'

theorem Course.cons (hdry : options.dryRun = false) (he : e ∈ items options)
    (hother : e.place root ∉ es.map (Item.place root)) {names : List String}
    (hrun : writeItem root options e s = .ok names t) (h : Course root options es t u) :
    Course root options (e :: es) s u := by
  have ht : after (writeItem root options e) s = t := after_eq hrun
  have hstep := fun q => ht ▸ writeItem_kept root hdry he s q
  -- what this turn wrote, the others leave alone
  have hstays : ∀ {content : Content}, t.tree.get? (e.place root) = some (.file content) →
      u.tree.get? (e.place root) = some (.file content) := by
    intro content hfile
    rcases h.kept (e.place root) with hq | ⟨hnone, -⟩ | ⟨e', text, ⟨_, hturn, -⟩, hq, -⟩
    · exact hq.trans hfile
    · rw [hfile] at hnone
      cases hnone
    · exact absurd (hq ▸ List.mem_map_of_mem hturn.mem) hother
  have hopen : ∀ {q : Path}, t.tree.get? q = some .directory → u.tree.get? q = some .directory := by
    intro q hdir
    rcases h.kept q with hq | ⟨hnone, -⟩ | ⟨_, _, -, -, hover⟩
    · exact hq.trans hdir
    · rw [hdir] at hnone
      cases hnone
    · exact absurd hdir hover
  constructor
  · intro q
    rcases hstep q with hq | ⟨hnone, hdir, p, hp, hway⟩ | ⟨hq, hover, text, hleave, hstores⟩
    · rcases h.kept q with kq | ⟨knone, kdir, p, hp, kway⟩ | ⟨e', text, hwritten, kq, kover⟩
      · exact .inl (kq.trans hq)
      · exact .inr (.inl ⟨hq ▸ knone, kdir, p, List.mem_cons_of_mem _ hp, kway⟩)
      · exact .inr (.inr ⟨e', text, hwritten.later hrun, kq, hq ▸ kover⟩)
    · rw [List.mem_singleton] at hp
      rcases h.kept q with kq | ⟨knone, -⟩ | ⟨_, _, -, -, kover⟩
      · exact .inr (.inl ⟨hnone, kq.trans hdir, p, by simp [hp], hway⟩)
      · rw [hdir] at knone
        cases knone
      · exact absurd hdir kover
    · exact .inr (.inr ⟨e, text, ⟨s, .here, hleave, ht ▸ hstores⟩, hq, hover⟩)
  · rintro e' text ⟨w, hturn, hleave, hstores⟩
    cases hturn with
    | here => exact hstays (ht ▸ hstores.stored.there)
    | later hrun' hturn =>
      cases hrun.symm.trans hrun'
      exact h.there e' text ⟨w, hturn, hleave, hstores⟩
  · rintro e' text ⟨w, hturn, hleave, hstores⟩ front hfront
    cases hturn with
    | here => exact hopen (ht ▸ hstores.stored.way front hfront)
    | later hrun' hturn =>
      cases hrun.symm.trans hrun'
      exact h.way e' text ⟨w, hturn, hleave, hstores⟩ front hfront

/-- However far the turns get, what they do is what the turns that came do. -/
theorem course (hdry : options.dryRun = false) (hes : es ⊆ items options)
    (hplaces : (es.map (Item.place root)).Nodup) (s : Session) :
    Course root options es s (after (es.mapM (writeItem root options)) s) := by
  induction es generalizing s with
  | nil =>
    have hnone : ∀ e text, ¬ Written root options [] s e text := fun e text ⟨u, hturn, _⟩ => nomatch hturn
    exact ⟨fun q => .inl rfl, fun e text h => absurd h (hnone e text),
      fun e text h => absurd h (hnone e text)⟩
  | cons e es ih =>
    obtain ⟨he, hes⟩ := List.cons_subset.mp hes
    rw [List.map_cons, List.nodup_cons] at hplaces
    rw [List.mapM_cons]
    cases hrun : writeItem root options e s with
    | error failure t =>
      rw [after_eq_error ((run_bind _ _ _).trans (by rw [hrun]))]
      exact .of_failure hdry he hrun
    | ok names t =>
      have hrest : after (writeItem root options e >>= fun names =>
          es.mapM (writeItem root options) >>= fun more => pure (names :: more)) s =
          after (es.mapM (writeItem root options)) t := by
        rw [after, bind_run hrun, run_bind, after]
        cases es.mapM (writeItem root options) t <;> rfl
      rw [hrest]
      exact .cons hdry he hplaces.1 hrun (ih hes hplaces.2 t)

theorem Course.touched (h : Course root options es s t) :
    Touched (es.map (·.path root)) s.tree t.tree := by
  refine ⟨fun q => ?_⟩
  rcases h.kept q with hq | hopens | ⟨e, text, hwritten, hq, hover⟩
  · exact .inl hq
  · exact .inr (.inr hopens)
  · have ⟨_, hturn, _⟩ := hwritten
    have hmem : q ∈ (es.map (·.path root)).map normalize := by
      rw [hq, List.map_map]
      exact List.mem_map.mpr ⟨e, hturn.mem, rfl⟩
    exact .inr (.inl ⟨hmem, hover, text, hq ▸ h.there e text hwritten⟩)

/-! ## The list that is given -/

/-- The names are those of the files that have a property, each once and in order. -/
def Lists (names : List String) (es : List Item) (P : Item → Prop) : Prop :=
  ∃ listed : List Item, listed.Sublist es ∧ names.map fileOf = listed.map (·.file) ∧ ∀ e ∈ es, e ∈ listed ↔ P e

/-- So the property tells the names. -/
theorem Lists.unique {names names' : List String} {P P' : Item → Prop} (hnodup : es.Nodup)
    (h : Lists names es P) (k : Lists names' es P') (hsame : ∀ e ∈ es, P e ↔ P' e) :
    names.map fileOf = names'.map fileOf := by
  obtain ⟨listed, hsub, hnames, hmem⟩ := h
  obtain ⟨listed', hsub', hnames', hmem'⟩ := k
  have hperm : listed.Perm listed' := by
    refine (List.perm_ext_iff_of_nodup (hsub.nodup hnodup) (hsub'.nodup hnodup)).mpr fun e => ?_
    constructor <;> intro he
    · have hin := hsub.mem he
      rwa [hmem' e hin, ← hsame e hin, ← hmem e hin]
    · have hin := hsub'.mem he
      rwa [hmem e hin, hsame e hin, ← hmem' e hin]
  rw [hnames, hnames', (hnodup.perm_iff_eq_of_sublist hsub hsub').mp hperm]

theorem returns_mapM_cons {given : List (List String)}
    (h : (e :: es).mapM (writeItem root options) s = .ok given u) : ∃ names t more,
      writeItem root options e s = .ok names t ∧ es.mapM (writeItem root options) t = .ok more u ∧
      given = names :: more := by
  rw [List.mapM_cons] at h
  obtain ⟨names, t, hrun, h⟩ := returns_bind h
  obtain ⟨more, _, hrest, h⟩ := returns_bind h
  cases h
  exact ⟨names, t, more, hrun, hrest, rfl⟩

theorem items_nodup (options : Setup.Options) : (items options).Nodup :=
  List.Pairwise.of_map (Item.place []) (fun _ _ hne he => hne (congrArg _ he)) (places_nodup [] options)

end Command
end SchemaScaffold
