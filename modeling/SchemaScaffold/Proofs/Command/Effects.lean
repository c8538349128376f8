import Mathlib.Data.List.Nodup
import SchemaScaffold.Proofs.Command.Places
import SchemaScaffold.Proofs.Command.Readings
import SchemaScaffold.Proofs.Schema.Assembly

/-!
What a command that generates code leaves behind. Its outcome names the files it dealt with, in
order; each either holds the text produced for it, or was there before and is as it was. Besides
those, only missing directories above written files are new.
-/

namespace SchemaScaffold

open Naming Generated Generate SchemaScaffold.Tree SchemaScaffold.Path

/-- A text that a command produces for a file: the merged schema, or the module of a template. -/
structure Product where
  path : Path
  template : Option Template := none
  text : String
  deriving Repr, DecidableEq

namespace Product

def ofMerge (project : Project) (merge : Schema.Merge) : Product where
  path := project.schemaPath
  text := merge.content

def ofModule (m : Module) : Product where
  path := m.path
  template := some m.template
  text := m.content

/-- How an outcome names the file. -/
def file (p : Product) (written : Bool) : File where
  path := p.path
  template := p.template
  written := written

end Product

/-- The texts that a command produces, in the order in which it writes them. -/
def Generation.products (project : Project) (names : ModelNames) (fields : List Field)
    (merge : Option Schema.Merge) (traits : TableOptions) (g : Generation) : List Product :=
  merge.toList.map (Product.ofMerge project) ++
    (g.modules project names traits fields).map Product.ofModule

namespace Command

/-- Entries of an outcome account for what changed between two trees: each text is in its file, or
the file was there. Without force a module is written only where there was nothing. -/
structure Accounts (force : Bool) (t u : Tree) (entries : List (Product × Bool)) : Prop where
  wrote : Wrote t u ((entries.filter (·.2)).map fun e => (e.1.path, e.1.text))
  there : ∀ e ∈ entries, e.2 = false → (t.get? e.1.path).isSome = true
  fresh : force = false → ∀ e ∈ entries, e.2 = true → e.1.template.isSome = true →
    t.get? e.1.path = none

variable {force : Bool} {t u v : Tree} {a b : List (Product × Bool)}

theorem Accounts.nil : Accounts force t t [] := ⟨.rfl, nofun, nofun⟩

/-- A file that none of the earlier files lies below looks as it did before they were written. -/
theorem Accounts.before (h : Accounts force t u a) {q : Path} (hq : ∀ e ∈ a, ¬ q <+: e.1.path) :
    u.get? q = t.get? q := by
  refine h.wrote.same fun f hf => ?_
  obtain ⟨e, he, rfl⟩ := List.mem_map.mp hf
  exact hq e (List.mem_filter.mp he).1

theorem Accounts.append (h : Accounts force t u a) (k : Accounts force u v b)
    (hapart : ∀ e ∈ a, ∀ f ∈ b, ¬ f.1.path <+: e.1.path) : Accounts force t v (a ++ b) := by
  have hbefore : ∀ f ∈ b, u.get? f.1.path = t.get? f.1.path := fun f hf =>
    h.before fun e he => hapart e he f hf
  refine ⟨?_, fun e he hskip => ?_, fun hforce e he hwritten hmodule => ?_⟩
  · rw [List.filter_append, List.map_append]
    refine h.wrote.append k.wrote fun f hf hmem => ?_
    obtain ⟨e, he, rfl⟩ := List.mem_map.mp hf
    rw [List.map_map] at hmem
    obtain ⟨e', he', heq⟩ := List.mem_map.mp hmem
    have heq : e'.1.path = e.1.path := heq
    exact hapart e (List.mem_filter.mp he).1 e' (List.mem_filter.mp he').1 (heq ▸ List.prefix_refl _)
  · rcases List.mem_append.mp he with he | he
    · exact h.there e he hskip
    · exact hbefore e he ▸ k.there e he hskip
  · rcases List.mem_append.mp he with he | he
    · exact h.fresh hforce e he hwritten hmodule
    · exact hbefore e he ▸ k.fresh hforce e he hwritten hmodule

/-- A file that was skipped is as it was, unless another entry wrote it. -/
theorem Accounts.skipped (h : Accounts force t u a) (honce : (a.map (·.1.path)).Nodup)
    {e : Product × Bool} (he : e ∈ a) (hskip : e.2 = false) : u.get? e.1.path = t.get? e.1.path := by
  have hother : e.1.path ∉ ((a.filter (·.2)).map fun e => (e.1.path, e.1.text)).map (·.1) := by
    rw [List.map_map]
    intro hmem
    obtain ⟨f, hf, heq⟩ := List.mem_map.mp hmem
    obtain ⟨hf, hwritten⟩ := List.mem_filter.mp hf
    rw [List.inj_on_of_nodup_map honce hf he heq, hskip] at hwritten
    cases hwritten
  rcases h.wrote.kept _ hother with hsame | ⟨hnone, -⟩
  · exact hsame
  · have hthere := h.there e he hskip
    rw [hnone] at hthere
    cases hthere

/-- However a file was dealt with, it is there. -/
theorem Accounts.present (h : Accounts force t u a) (honce : (a.map (·.1.path)).Nodup)
    {e : Product × Bool} (he : e ∈ a) : (u.get? e.1.path).isSome = true := by
  cases hwritten : e.2 with
  | true =>
    have hthere := h.wrote.there (e.1.path, e.1.text)
      (List.mem_map_of_mem (f := fun e : Product × Bool => (e.1.path, e.1.text))
        (List.mem_filter.mpr ⟨he, hwritten⟩))
    rw [hthere]
    rfl
  | false => exact h.skipped honce he hwritten ▸ h.there e he hwritten

/-! ## Modules -/

variable {options : WriteOptions} {s w : Session}

theorem accounts_writeFile (hdry : options.dryRun = false) {p : Product} (hpath : Straight p.path)
    (hs : s.tree.Closed) {written : Bool} (h : writeFile options p.path p.text s = .ok written w) :
    Accounts options.force s.tree w.tree [(p, written)] := by
  rcases returns_writeFile hdry hpath h with ⟨rfl, -, hthere, htree⟩ | ⟨rfl, hfree, hwrote⟩
  · rw [htree]
    refine ⟨.rfl, fun e he _ => ?_, fun _ e he hwritten => ?_⟩
    · cases List.mem_singleton.mp he
      have := probe_ok hs hpath hthere
      exact (Bool.and_eq_true_iff.mp this.symm).2
    · cases List.mem_singleton.mp he
      cases hwritten
  · refine ⟨hwrote, fun e he hskip => ?_, fun hforce e he _ _ => ?_⟩
    · cases List.mem_singleton.mp he
      cases hskip
    · cases List.mem_singleton.mp he
      have hnull : p.path.any hasNull = false := hwrote.named (p.path, p.text) (by simp)
      simpa [hnull] using probe_ok hs hpath (hfree hforce)

/-- Modules none of which lies on the way to a later one. -/
theorem accounts_mapM (hdry : options.dryRun = false) {modules : List Module}
    (hstraight : ∀ m ∈ modules, Straight m.path)
    (hapart : (modules.map (·.path)).Pairwise fun p q => ¬ q <+: p) {s w : Session}
    (hs : s.tree.Closed) {files : List File}
    (h : (modules.mapM fun m : Module => do
      let written ← writeFile options m.path m.content
      return ({ path := m.path, template := some m.template, written } : File)) s = .ok files w) :
    ∃ entries, entries.map (·.1) = modules.map Product.ofModule ∧
      files = entries.map (fun e => e.1.file e.2) ∧
      Accounts options.force s.tree w.tree entries := by
  induction modules generalizing s files with
  | nil =>
    cases h
    exact ⟨[], rfl, rfl, .nil⟩
  | cons m modules ih =>
    obtain ⟨hfirst, hrest⟩ := List.pairwise_cons.mp hapart
    rw [List.mapM_cons] at h
    obtain ⟨file, t, hfile, h⟩ := returns_bind h
    obtain ⟨written, _, hwrite, hfile⟩ := returns_bind hfile
    cases hfile
    obtain ⟨others, _, hothers, h⟩ := returns_bind h
    cases h
    have hhead := accounts_writeFile (p := .ofModule m) hdry (hstraight m (by simp)) hs hwrite
    obtain ⟨entries, hentries, rfl, htail⟩ :=
      ih (fun n hn => hstraight n (List.mem_cons_of_mem _ hn)) hrest (hhead.wrote.closed hs)
        hothers
    refine ⟨(Product.ofModule m, written) :: entries, by simp [hentries], rfl, ?_⟩
    refine hhead.append htail fun e he f hf => ?_
    cases List.mem_singleton.mp he
    have hmem : f.1 ∈ modules.map Product.ofModule := hentries ▸ List.mem_map_of_mem hf
    obtain ⟨n, hn, heq⟩ := List.mem_map.mp hmem
    rw [← heq]
    exact hfirst _ (List.mem_map_of_mem hn)

theorem accounts_writeModules (hdry : options.dryRun = false) {modules : List Module}
    (hstraight : ∀ m ∈ modules, Straight m.path)
    (hapart : (modules.map (·.path)).Pairwise fun p q => ¬ q <+: p) {s w : Session}
    (hs : s.tree.Closed) {o : Outcome} (h : writeModules options modules s = .ok o w) :
    o.merge = none ∧ ∃ entries, entries.map (·.1) = modules.map Product.ofModule ∧
      o.files = entries.map (fun e => e.1.file e.2) ∧
      Accounts options.force s.tree w.tree entries := by
  obtain ⟨files, _, hfiles, hpure⟩ := returns_bind h
  cases hpure
  exact ⟨rfl, accounts_mapM hdry hstraight hapart hs hfiles⟩

/-! ## The table -/

theorem returns_readText? {path : Path} {text : Option String} {s w : Session}
    (h : readText? path s = .ok text w) : s.tree.probe path = .ok text.isSome := by
  obtain ⟨there, _, hask, h⟩ := returns_bind h
  obtain ⟨hthere, rfl⟩ := returns_exists? hask
  split at h
  · rename_i hyes
    obtain ⟨_, _, -, h⟩ := returns_bind h
    cases h
    rw [hthere, hyes, Option.isSome_some]
  · rename_i hno
    cases h
    rw [hthere, Bool.eq_false_iff.mpr hno, Option.isSome_none]

/-- A table that is skipped was found in the schema file. -/
theorem schema_there {project : Project} {options : Options} {names : ModelNames}
    {fields : List Field} {merge : Schema.Merge} {s : Session}
    (h : value (Generation.mergeTable project options names fields) s = .ok merge)
    (hskip : merge.changed = false) : s.tree.probe project.schemaPath = .ok true := by
  obtain ⟨table, _, htable, h⟩ := returns_bind (run_eq_ok h)
  obtain ⟨-, rfl⟩ := returns_lift htable
  obtain ⟨existing, _, hread, h⟩ := returns_bind h
  obtain ⟨hmerge, -⟩ := returns_lift h
  have hthere := returns_readText? hread
  cases existing with
  | some text => exact hthere
  | none =>
    rcases Schema.merge_cases hmerge with ⟨hblank, -⟩ | ⟨haction, -⟩
    · cases hblank
    · rw [Schema.Merge.changed, haction] at hskip
      cases hskip

theorem accounts_putTable (hdry : options.dryRun = false) {project : Project} {names : ModelNames}
    (hpath : Straight project.schemaPath) {merge : Schema.Merge} {s w : Session}
    (hs : s.tree.Closed)
    (hthere : merge.changed = false → s.tree.probe project.schemaPath = .ok true)
    (h : Generation.putTable project options names merge s = .ok () w) :
    Accounts options.force s.tree w.tree [(.ofMerge project merge, merge.changed)] := by
  unfold Generation.putTable at h
  split at h
  · rename_i hchanged
    rw [hchanged]
    refine ⟨returns_updateFile hdry hpath h, fun e he hskip => ?_, fun _ e he _ hmodule => ?_⟩
    · cases List.mem_singleton.mp he
      cases hskip
    · cases List.mem_singleton.mp he
      cases hmodule
  · rename_i hskip
    have hskip : merge.changed = false := by simpa using hskip
    obtain ⟨_, _, hreport, h⟩ := returns_bind h
    have htree : w.tree = s.tree :=
      ((looking.say _).returns h).tree.trans (returns_report hreport).tree
    rw [hskip, htree]
    refine ⟨.rfl, fun e he _ => ?_, fun _ e he hwritten => ?_⟩
    · cases List.mem_singleton.mp he
      exact (Bool.and_eq_true_iff.mp (probe_ok hs hpath (hthere hskip)).symm).2
    · cases List.mem_singleton.mp he
      cases hwritten

end Command

namespace Generation

open Command

variable {project : Project} {options : Options} {name : String} {g : Generation}

/-- A command that succeeds has checked its request and read what it needs, from the files as they
were, before it writes. -/
theorem run_ok {o : Outcome} {s u : Session} (h : g.run project options name s = .ok o u) :
    ∃ fields merge traits t,
      Generate.prepare options name g.definitions = .ok (ModelNames.of name, fields) ∧
      value (g.read project options (.of name) fields) s = .ok (merge, traits) ∧ s.SameFiles t ∧
      g.write project options.toWriteOptions (.of name) fields merge traits t = .ok o u := by
  rw [run_eq] at h
  obtain ⟨⟨names, fields⟩, _, hprepare, h⟩ := returns_bind h
  obtain ⟨hprepared, rfl⟩ := returns_lift hprepare
  obtain ⟨-, -, rfl⟩ := prepare_ok hprepared
  obtain ⟨_, r, hopening, h⟩ := returns_bind h
  obtain ⟨⟨merge, traits⟩, t, hread, h⟩ := returns_bind h
  have hsame := (obeys_opening looking _ _ _).returns hopening
  have hreads := reads_read project options (.of name) fields g
  refine ⟨fields, merge, traits, t, hprepared, ?_, hsame.trans (hreads.looks.returns hread), h⟩
  rw [← hreads.same s r hsame, value, hread]

theorem read_some {names : ModelNames} {fields : List Field} {merge : Schema.Merge}
    {traits : TableOptions} {s : Session}
    (h : value (g.read project options names fields) s = .ok (some merge, traits)) :
    value (mergeTable project options names fields) s = .ok merge := by
  have hread := run_eq_ok h
  unfold Generation.read at hread
  split at hread
  · obtain ⟨_, t, hmerge, hpure⟩ := returns_bind hread
    cases hpure
    rw [value, hmerge]
  · obtain ⟨_, t, -, hpure⟩ := returns_bind hread
    cases hpure

/-- The entries of an outcome, one for each text the command produced. -/
theorem accounts_write (hreal : options.dryRun = false) (hname : validateModelName name = .ok ())
    (hapart : g.Apart project name) {fields : List Field} {merge : Option Schema.Merge}
    {traits : TableOptions} {o : Outcome} {s t u : Session} (hs : s.tree.Closed)
    (hread : value (g.read project options (.of name) fields) s = .ok (merge, traits))
    (htree : t.tree = s.tree)
    (h : g.write project options.toWriteOptions (.of name) fields merge traits t = .ok o u) :
    o.merge = merge ∧ ∃ entries,
      entries.map (·.1) = g.products project (.of name) fields merge traits ∧
      o.files = entries.map (fun e => e.1.file e.2) ∧
      Accounts options.force s.tree u.tree entries := by
  have hpaths : (g.modules project (.of name) traits fields).map (·.path) = g.paths project name :=
    g.modules_paths project _ traits fields
  have hmodules : ∀ {r w : Session} {p : Outcome}, r.tree.Closed →
      writeModules options.toWriteOptions (g.modules project (.of name) traits fields) r = .ok p w →
      p.merge = none ∧ ∃ entries,
        entries.map (·.1) = (g.modules project (.of name) traits fields).map Product.ofModule ∧
        p.files = entries.map (fun e => e.1.file e.2) ∧
        Accounts options.force r.tree w.tree entries := by
    intro r w p hr hwrite
    refine accounts_writeModules hreal (fun m hm => ?_) ?_ hr hwrite
    · exact hapart.straight_path hname (hpaths ▸ List.mem_map_of_mem hm)
    · rw [hpaths]
      exact (paths_apart project name g).imp fun h => h.2
  obtain ⟨_, r, htable, h⟩ := returns_bind h
  obtain ⟨p, w, hwrite, h⟩ := returns_bind h
  obtain ⟨_, v, hclosing, h⟩ := returns_bind h
  cases h
  rw [((obeys_closing looking _ _ _).returns hclosing).tree]
  cases merge with
  | none =>
    cases htable
    rw [← htree] at hs ⊢
    obtain ⟨hmerge, entries, hentries, hfiles, haccounts⟩ := hmodules hs hwrite
    refine ⟨by simp [Outcome.append, hmerge], entries, hentries, by simp [Outcome.append, hfiles], ?_⟩
    exact haccounts
  | some merge =>
    obtain ⟨_, r', hput, hnil⟩ := returns_bind htable
    cases hnil
    have hmerged := read_some hread
    have hhead := accounts_putTable hreal hapart.straight_schemaPath (htree ▸ hs)
      (fun hskip => htree ▸ schema_there hmerged hskip) hput
    obtain ⟨hmerge, entries, hentries, hfiles, htail⟩ := hmodules (hhead.wrote.closed (htree ▸ hs)) hwrite
    refine ⟨by simp [Outcome.append, tableOutcome, hmerge],
      (.ofMerge project merge, merge.changed) :: entries, ?_, ?_, ?_⟩
    · simp [products, hentries]
    · simp [Outcome.append, tableOutcome, hfiles]
      rfl
    · refine htree ▸ hhead.append htail fun e he f hf => ?_
      cases List.mem_singleton.mp he
      have hmem : f.1 ∈ (g.modules project (.of name) traits fields).map Product.ofModule :=
        hentries ▸ List.mem_map_of_mem hf
      obtain ⟨m, hm, heq⟩ := List.mem_map.mp hmem
      rw [← heq]
      exact hapart.not_above_schema (hpaths ▸ List.mem_map_of_mem hm)

/-- No file is dealt with twice. -/
theorem products_once (hapart : g.Apart project name) (fields : List Field)
    (merge : Option Schema.Merge) (traits : TableOptions) :
    ((g.products project (.of name) fields merge traits).map (·.path)).Nodup := by
  have hpaths : ((g.modules project (.of name) traits fields).map Product.ofModule).map (·.path) =
      g.paths project name := by
    rw [List.map_map]
    exact g.modules_paths project _ traits fields
  have hmodules : (g.paths project name).Nodup := by
    refine (paths_apart project name g).imp ?_
    rintro p _ hapart rfl
    exact hapart.1 (List.prefix_refl _)
  rw [products, List.map_append, hpaths]
  cases merge with
  | none => exact hmodules
  | some merge =>
    refine List.nodup_cons.mpr ⟨fun hmem => ?_, hmodules⟩
    exact hapart.not_above_schema hmem (List.prefix_refl _)

/-- A successful run accounts for what it changed, with one entry for each text it produced. -/
theorem accounts_run (hreal : options.dryRun = false)
    (hproject : project.Detected ∨ g.Apart project name) {s : Session} (hs : s.tree.Closed)
    {o : Outcome} (h : value (g.run project options name) s = .ok o) :
    ∃ fields traits entries, Field.parseAll g.definitions = .ok fields ∧
      value (g.read project options (.of name) fields) s = .ok (o.merge, traits) ∧
      entries.map (·.1) = g.products project (.of name) fields o.merge traits ∧
      o.files = entries.map (fun e => e.1.file e.2) ∧ (entries.map (·.1.path)).Nodup ∧
      Accounts options.force s.tree (after (g.run project options name) s).tree entries := by
  have hrun : g.run project options name s = .ok o _ := run_eq_ok h
  have hname := accepted_of_run hrun
  have hapart : g.Apart project name := hproject.elim (fun h => apart_of_detected h hname g) id
  obtain ⟨fields, merge, traits, t, hprepared, hread, hsame, hwrite⟩ := run_ok hrun
  obtain ⟨rfl, entries, hentries, hfiles, haccounts⟩ :=
    accounts_write hreal hname hapart hs hread hsame.tree hwrite
  refine ⟨fields, traits, entries, (prepare_ok hprepared).2.1, hread, hentries, hfiles, ?_, haccounts⟩
  have honce := products_once hapart fields o.merge traits
  rwa [← hentries, List.map_map] at honce

end Generation

namespace Command

/-- The outcome of a command tells the truth. It names one file for each text the command produced;
those written hold their texts, and those skipped were there and are as they were. Of the other
paths only missing directories above written files have changed, and without force no file that was
there has, but the schema. -/
theorem outcome_tells (project : Project) (options : Options) (name : String) (g : Generation)
    (s : Session) (hs : s.tree.Closed) (hproject : project.Detected ∨ g.Apart project name)
    (hreal : options.dryRun = false) (o : Outcome)
    (h : value (g.run project options name) s = .ok o) :
    let u := after (g.run project options name) s
    (∃ fields traits, Field.parseAll g.definitions = .ok fields ∧
      value (g.read project options (.of name) fields) s = .ok (o.merge, traits) ∧
      let products := g.products project (.of name) fields o.merge traits
      o.files.map (fun f => (f.path, f.template)) = products.map (fun p => (p.path, p.template)) ∧
        ∀ p ∈ products, p.path ∈ o.written → u.tree.get? p.path = some (.file (.text p.text))) ∧
    (∀ q ∈ o.skipped, (s.tree.get? q).isSome = true ∧ u.tree.get? q = s.tree.get? q) ∧
    (∀ q, q ∉ o.written → u.tree.get? q = s.tree.get? q ∨
      s.tree.get? q = none ∧ u.tree.get? q = some .directory ∧ ∃ f ∈ o.written, q <+: f) ∧
    (options.force = false → ∀ q node, s.tree.get? q = some node → q ≠ project.schemaPath →
      u.tree.get? q = some node) := by
  intro u
  obtain ⟨fields, traits, entries, hfields, hread, hentries, hfiles, honce, haccounts⟩ :=
    Generation.accounts_run hreal hproject hs h
  have hwritten : o.written = (entries.filter (·.2)).map (·.1.path) := by
    rw [Outcome.written, hfiles, List.filter_map, List.map_map]
    rfl
  have hskipped : o.skipped = (entries.filter (!·.2)).map (·.1.path) := by
    rw [Outcome.skipped, hfiles, List.filter_map, List.map_map]
    rfl
  have hkept : ∀ q, q ∉ o.written → u.tree.get? q = s.tree.get? q ∨
      s.tree.get? q = none ∧ u.tree.get? q = some .directory ∧ ∃ f ∈ o.written, q <+: f := by
    intro q hq
    rw [hwritten] at hq ⊢
    rcases haccounts.wrote.kept q (by rw [List.map_map]; exact hq) with hsame | ⟨hnone, hdir, f, hf, hpre⟩
    · exact .inl hsame
    · obtain ⟨e, he, rfl⟩ := List.mem_map.mp hf
      exact .inr ⟨hnone, hdir, _, List.mem_map_of_mem he, hpre⟩
  refine ⟨⟨fields, traits, hfields, hread, ?_, fun p hp hmem => ?_⟩, fun q hq => ?_, hkept,
    fun hforce q node hnode hschema => ?_⟩
  · rw [hfiles, ← hentries, List.map_map, List.map_map]
    rfl
  · rw [← hentries] at hp
    obtain ⟨e, he, rfl⟩ := List.mem_map.mp hp
    rw [hwritten] at hmem
    obtain ⟨f, hf, heq⟩ := List.mem_map.mp hmem
    rw [← List.inj_on_of_nodup_map honce (List.mem_filter.mp hf).1 he heq]
    exact haccounts.wrote.there _ (List.mem_map_of_mem hf)
  · rw [hskipped] at hq
    obtain ⟨e, he, rfl⟩ := List.mem_map.mp hq
    obtain ⟨he, hskip⟩ := List.mem_filter.mp he
    have hskip : e.2 = false := by simpa using hskip
    exact ⟨haccounts.there e he hskip, haccounts.skipped honce he hskip⟩
  · by_cases hq : q ∈ o.written
    · rw [hwritten] at hq
      obtain ⟨e, he, rfl⟩ := List.mem_map.mp hq
      obtain ⟨he, hw⟩ := List.mem_filter.mp he
      have hmodule : e.1.template.isSome = true := by
        have hp : e.1 ∈ g.products project (.of name) fields o.merge traits :=
          hentries ▸ List.mem_map_of_mem he
        rcases List.mem_append.mp hp with hp | hp
        · obtain ⟨merge, -, heq⟩ := List.mem_map.mp hp
          exact absurd (congrArg Product.path heq).symm hschema
        · obtain ⟨m, -, heq⟩ := List.mem_map.mp hp
          rw [← heq]
          rfl
      rw [haccounts.fresh hforce e he hw hmodule] at hnode
      cases hnode
    · rcases hkept q hq with hsame | ⟨hnone, -⟩
      · rw [hsame, hnode]
      · rw [hnode] at hnone
        cases hnone

/-- A project with notes in its schema file and a page of a model. -/
def notedSession : Session where
  base := "/project"
  tree := { entries := [(["db"], .directory), (["db", "schema.ts"], .file (.text "// notes\n")),
    (["app"], .directory), (["app", "posts"], .directory),
    (["app", "posts", "page.tsx"], .file (.text "written by hand"))] }

theorem outcome_tells_noted :
    let project : Project := { root := [], layout := {}, dialect := .sqlite }
    let scaffold := Generation.run project {} "Post" (.scaffold ["title"])
    ∃ o, value scaffold notedSession = .ok o ∧
      o.skipped = [["app", "posts", "page.tsx"]] ∧
      (after scaffold notedSession).tree.get? ["app", "posts", "page.tsx"] =
        some (.file (.text "written by hand")) ∧
      ∀ q node, notedSession.tree.get? q = some node → q ≠ ["db", "schema.ts"] →
        (after scaffold notedSession).tree.get? q = some node := by
  intro project scaffold
  have hclosed : notedSession.tree.Closed := by decide
  have hdetected : project.Detected := ⟨by decide, notedSession.tree, by decide +kernel⟩
  have hskipped : (value scaffold notedSession).map Outcome.skipped =
      .ok [["app", "posts", "page.tsx"]] := by
    decide +kernel
  cases hrun : value scaffold notedSession with
  | error e =>
    rw [hrun] at hskipped
    cases hskipped
  | ok o =>
    rw [hrun] at hskipped
    have hskipped := Except.ok.inj hskipped
    obtain ⟨-, hthere, -, hkept⟩ := outcome_tells project {} "Post" (.scaffold ["title"]) notedSession
      hclosed (.inl hdetected) rfl o hrun
    have hschema : project.schemaPath = ["db", "schema.ts"] := by decide +kernel
    refine ⟨o, rfl, hskipped, ?_, fun q node hnode hq => hkept rfl q node hnode (hschema ▸ hq)⟩
    rw [(hthere _ (hskipped ▸ List.mem_singleton_self _)).2]
    decide

/-- Where the database directory stands at the place of a module, the module is skipped although it
was not there, and where the path of a page goes through a directory that is not there yet and up
again, the page is overwritten without force. -/
theorem outcome_misleads :
    let crossed : Project := {
      root := [], layout := { dbFolder := "app/posts/actions.ts" }, dialect := .sqlite }
    let doubled : Project := { root := [], layout := { appFolder := "web/.." }, dialect := .sqlite }
    let s : Session := { base := "/project", tree := .empty }
    let t : Session := { base := "/project", tree := { entries := [
      (["posts"], .directory), (["posts", "page.tsx"], .file (.text "written by hand"))] } }
    ((value (Generation.run crossed {} "Post" (.resource [])) s).map Outcome.skipped =
        .ok [["app", "posts", "actions.ts"]] ∧
      s.tree.get? ["app", "posts", "actions.ts"] = none) ∧
    ((value (Generation.run doubled {} "Post" (.pages [])) t).map Outcome.skipped = .ok [] ∧
      (after (Generation.run doubled {} "Post" (.pages [])) t).tree.get? ["posts", "page.tsx"] ≠
        some (.file (.text "written by hand"))) := by
  decide +kernel

end Command
end SchemaScaffold
