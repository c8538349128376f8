import Mathlib.Data.List.Nodup
import SchemaScaffold.Proofs.Command.Overwriting
import SchemaScaffold.Proofs.Text.LineFeeds

/-!
The environment file that a setup leaves. Its turn either writes the address of the database, behind
what the file held before, or leaves the file as it was, because the variable is mentioned in it. What
is mentioned need not be set: a longer name, a value or a comment mentions it too.
-/

namespace SchemaScaffold

open Setup SchemaScaffold.Tree SchemaScaffold.Path

namespace Text

theorem not_mem_lineFeeds (cs : List Char) : '\r' ∉ lineFeeds cs := by
  fun_induction lineFeeds cs with
  | case1 => simp
  | case2 cs ih => simpa using ih
  | case3 c cs _ ih =>
    by_cases hc : c = '\r'
    · simpa [hc] using ih
    · simpa [hc] using ⟨Ne.symm hc, ih⟩

theorem trimEnd_prefix (cs : List Char) : trimEnd cs <+: cs := by
  rw [trimEnd, ← List.reverse_suffix, List.reverse_reverse]
  exact List.dropWhile_suffix _

/-- A line that stands in a text is one of its lines. -/
theorem mem_split_line {line : List Char} (hline : '\n' ∉ line) (front rest : List Char) :
    line ∈ split (· == '\n') (front ++ '\n' :: (line ++ '\n' :: rest)) := by
  have hwhole : split (· == '\n') line = [line] :=
    split_of_none fun c hc => beq_false_of_ne fun he => hline (he ▸ hc)
  rw [split_append (· == '\n') (beq_self_eq_true '\n'),
    split_append (· == '\n') (beq_self_eq_true '\n'), hwhole]
  simp

end Text

namespace Setup

variable {options : Options}

/-- A line of an environment file sets a variable. -/
def Defines (name text : String) : Prop :=
  ∃ line ∈ Text.split (· == '\n') text.toList, (name ++ "=").toList <+: line

instance (name text : String) : Decidable (Defines name text) :=
  inferInstanceAs (Decidable (∃ line ∈ Text.split (· == '\n') text.toList, (name ++ "=").toList <+: line))

/-- The line that sets the address. -/
def addressLine (o : Options) : String := o.driver.envVar ++ "=\"" ++ databaseUrl o ++ "\""

/-- A text without line breaks of either kind. -/
def OneLine (s : String) : Prop := '\n' ∉ s.toList ∧ '\r' ∉ s.toList

instance (s : String) : Decidable (OneLine s) :=
  inferInstanceAs (Decidable ('\n' ∉ s.toList ∧ '\r' ∉ s.toList))

theorem OneLine.append {a b : String} (ha : OneLine a) (hb : OneLine b) : OneLine (a ++ b) := by
  rw [OneLine, String.toList_append, List.mem_append, List.mem_append, not_or, not_or]
  exact ⟨⟨ha.1, hb.1⟩, ha.2, hb.2⟩

theorem oneLine_envVar : ∀ driver ∈ Driver.all, OneLine driver.envVar := by
  decide

theorem oneLine_envExample : ∀ driver ∈ Driver.all, OneLine driver.envExample := by
  decide

theorem oneLine_databaseUrl (hdriver : options.driver ∈ Driver.all) : OneLine (databaseUrl options) := by
  have hexample := oneLine_envExample _ hdriver
  have hcompose : ∀ dialect ∈ Dialect.all, ∀ url ∈ (composeUrl? dialect).toList, OneLine url := by decide
  unfold databaseUrl
  split
  · cases hurl : composeUrl? options.dialect with
    | none => exact hexample
    | some url => exact hcompose options.dialect (Dialect.mem_all _) url (by simp [hurl])
  · exact hexample

theorem oneLine_addressLine (hdriver : options.driver ∈ Driver.all) : OneLine (addressLine options) :=
  (((oneLine_envVar _ hdriver).append (by decide)).append (oneLine_databaseUrl hdriver)).append (by decide)

theorem envFile_toList (o : Options) : ∃ rest, '\r' ∉ rest ∧
    (envFile o).toList = "# Database".toList ++ '\n' :: ((addressLine o).toList ++ '\n' :: rest) := by
  refine ⟨(Text.unlines (if o.driver.key == "libsql" then
    ["DATABASE_AUTH_TOKEN=\"your-auth-token\""] else [])).toList, ?_, ?_⟩
  · split <;> decide
  · rw [envFile, Text.toList_unlines, Text.toList_unlines, List.flatMap_append]
    simp [addressLine]

theorem return_not_in_envFile (hdriver : options.driver ∈ Driver.all) :
    '\r' ∉ (envFile options).toList := by
  obtain ⟨rest, hrest, htext⟩ := envFile_toList options
  rw [htext]
  simp [(oneLine_addressLine hdriver).2, hrest]

/-- A text that ends with the environment file sets the variable. -/
theorem defines_of_suffix (hdriver : options.driver ∈ Driver.all) {text : String}
    (h : (envFile options).toList <:+ text.toList) : Defines options.driver.envVar text := by
  obtain ⟨front, hfront⟩ := h
  obtain ⟨rest, -, htext⟩ := envFile_toList options
  refine ⟨(addressLine options).toList, ?_, ?_⟩
  · rw [← hfront, htext, ← List.append_assoc]
    exact Text.mem_split_line (oneLine_addressLine hdriver).1 _ _
  · rw [addressLine, String.toList_append, String.toList_append, String.toList_append]
    simp

theorem mergeEnv_toList (old content : String) : (mergeEnv old content).toList =
    Text.trimEnd old.toList ++ ("\n\n".toList ++ content.toList) := by
  simp [mergeEnv, String.toList_append]

end Setup

namespace Command

variable {root : Path} {options : Setup.Options} {es : List Item} {e : Item} {s t u v : Session}

/-- When all turns succeed, each file has one. -/
theorem exists_turn {given : List (List String)}
    (h : es.mapM (writeItem root options) s = .ok given t) (he : e ∈ es) : ∃ u names v,
      Turn root options es s e u ∧ writeItem root options e u = .ok names v := by
  induction es generalizing s given with
  | nil => cases he
  | cons first es ih =>
    obtain ⟨names, r, more, hrun, hrest, -⟩ := returns_mapM_cons h
    rcases List.mem_cons.mp he with rfl | he
    · exact ⟨s, names, r, .here, hrun⟩
    · obtain ⟨u, names', v, hturn, hturned⟩ := ih hrest he
      exact ⟨u, names', v, .later hrun hturn, hturned⟩

/-- A turn of the environment file that succeeds writes it, or finds the variable mentioned in it. -/
theorem returns_envItem (hdry : options.dryRun = false) (hwrites : envItem options ∈ items options)
    {names : List String} (h : writeItem root options (envItem options) u = .ok names v) :
    (∃ text, Leave root options (envItem options) u text ∧
      Stores (root ++ [envExampleFile]) text u v) ∨
    ∃ old, u.tree.read (root ++ [envExampleFile]) = .ok (some old) ∧ options.force = false ∧
      Text.occursIn options.driver.envVar old = true := by
  rcases returns_writeItem hdry hwrites h with ⟨-, -, hno⟩ | ⟨text, -, -, -, hleave, hstores⟩
  · refine .inr ?_
    have h : writeEnvFile root options u = .ok names v := h
    rcases writeEnvFile_cases root options u with ⟨failure, hrun⟩ | ⟨hopen, -⟩ |
      ⟨hthere, hforce, old, hread, -⟩
    · rw [hrun] at h
      cases h
    · have hopen : EnvOpen root options u.tree := hopen.imp id .inl
      obtain ⟨text, hleave⟩ := envOpen_iff_leave.mp hopen
      exact absurd hleave (hno text)
    · refine ⟨old, hread, hforce, Bool.not_eq_false _ ▸ fun hlacks => ?_⟩
      exact hno _ ((added_iff hthere hforce hread).mpr ⟨hlacks, rfl⟩)
  · exact .inl ⟨text, hleave, envItem_path root options ▸ hstores⟩

/-- The environment file is as the turns before its own found it. -/
theorem Turn.env_kept (hdry : options.dryRun = false) (hroot : Straight root) (hclosed : s.tree.Closed)
    (hturn : Turn root options (items options) s (envItem options) u) {old : String}
    (hread : u.tree.read (root ++ [envExampleFile]) = .ok (some old)) :
    u.tree.get? (root ++ [envExampleFile]) = s.tree.get? (root ++ [envExampleFile]) ∧
      s.tree.read (root ++ [envExampleFile]) = .ok (some old) := by
  have hpath : Straight (root ++ [envExampleFile]) := hroot.append (by decide)
  have hplace : (envItem options).place root = root ++ [envExampleFile] := by
    rw [Item.place, envItem_path, hpath]
  obtain ⟨paths, -, htouched⟩ := hturn.touched hdry (List.Subset.refl _) (places_nodup root options)
  obtain ⟨place, raw, hlocate, -⟩ := read_some_iff.mp hread
  obtain ⟨rfl, hfile, -⟩ := locate_found hpath hlocate
  have hkept := hturn.kept hdry (List.Subset.refl _) (places_nodup root options)
  rw [hplace] at hkept
  rcases hkept with hsame | ⟨-, hdir⟩
  · exact ⟨hsame, htouched.grew.read_before hclosed hpath hsame hread⟩
  · rw [hfile] at hdir
    cases hdir

/-- If the setup is not forced, leave to write over a file that was there at first is leave to add to it. -/
theorem Turn.env_added (hdry : options.dryRun = false) (hroot : Straight root) (hclosed : s.tree.Closed)
    (hturn : Turn root options (items options) s (envItem options) u) (hforce : options.force = false)
    {text old : String} (hleave : Leave root options (envItem options) u text)
    (hread : s.tree.read (root ++ [envExampleFile]) = .ok (some old)) :
    Text.occursIn options.driver.envVar old = false ∧ text = mergeEnv old (envFile options) := by
  cases hleave with
  | free hfree =>
    obtain ⟨paths, -, htouched⟩ := hturn.touched hdry (List.Subset.refl _) (places_nodup root options)
    rw [envItem_path] at hfree
    have hmissing := htouched.grew.probe_before (hroot.append (by decide)) hfree
    rw [probe_of_read hread] at hmissing
    cases hmissing
  | forced hforced =>
    rw [hforce] at hforced
    cases hforced
  | agreed hplain => cases hplain
  | added _ _ hold hlacks =>
    rw [envItem_path] at hold
    obtain ⟨-, hbefore⟩ := hturn.env_kept hdry hroot hclosed hold
    rw [hread] at hbefore
    cases hbefore
    exact ⟨hlacks, rfl⟩

/-- What there is leave to write ends with the lines of the setup. -/
theorem Leave.env_text (hdriver : options.driver ∈ Driver.all) {text : String}
    (h : Leave root options (envItem options) u text) :
    (envFile options).toList <:+ text.toList ∧ '\r' ∉ text.toList := by
  have hreturn := return_not_in_envFile hdriver
  cases h with
  | free | forced => exact ⟨List.suffix_refl _, hreturn⟩
  | agreed hplain => cases hplain
  | @added old _ _ hold _ =>
    obtain ⟨_, raw, -, rfl⟩ := read_some_iff.mp hold
    have hbefore : '\r' ∉ Text.trimEnd (Text.withLineFeeds raw).toList := by
      intro hc
      rw [Text.withLineFeeds, String.toList_ofList] at hc
      exact Text.not_mem_lineFeeds _ ((Text.trimEnd_prefix _).subset hc)
    rw [mergeEnv_toList]
    refine ⟨⟨_, List.append_assoc _ _ _⟩, ?_⟩
    simp only [List.mem_append, not_or]
    exact ⟨hbefore, by decide, hreturn⟩

/-- What is written at the turn of a file is read there in the end. -/
theorem Course.read_written (h : Course root options es s t) (hpath : Straight (e.path root)) {text : String}
    (hwritten : Written root options es s e text) :
    t.tree.read (e.path root) = .ok (some (Text.withLineFeeds text)) := by
  have ⟨_, _, _, hstores⟩ := hwritten
  obtain ⟨place, node, hfound⟩ := hstores.found
  have hlocate := locate_of_way hpath hfound (h.way e text hwritten) (h.there e text hwritten)
  exact read_some_iff.mpr ⟨_, text, hlocate, rfl⟩

/-- A file that is not written at its turn is read in the end as at first. -/
theorem Course.read_unwritten (h : Course root options es s t) (hplaces : (es.map (Item.place root)).Nodup)
    (he : e ∈ es) (hpath : Straight (e.path root)) {old : String}
    (hread : s.tree.read (e.path root) = .ok (some old))
    (hno : ∀ text, ¬ Written root options es s e text) : t.tree.read (e.path root) = .ok (some old) := by
  obtain ⟨place, raw, hlocate, htext⟩ := read_some_iff.mp hread
  obtain ⟨rfl, hfile, -⟩ := locate_found hpath hlocate
  have hsame : t.tree.get? (e.path root) = s.tree.get? (e.path root) := by
    rcases h.kept (e.path root) with hq | ⟨hnone, -⟩ | ⟨e', text, hwritten, hplace, -⟩
    · exact hq
    · rw [hfile] at hnone
      cases hnone
    · have ⟨_, hturn, _⟩ := hwritten
      have hsame : e = e' :=
        List.inj_on_of_nodup_map hplaces he hturn.mem (by rw [← hplace, Item.place, hpath])
      exact absurd (hsame ▸ hwritten) (hno text)
  exact read_some_iff.mpr ⟨_, raw, h.touched.grew.locate_same hpath hsame hlocate, htext⟩

/-- What the environment file holds after a setup: behind what it held before, the address under its
variable, unless the variable was mentioned already. Then the file is as it was, and the variable is set
only if it was set before. -/
theorem createFiles_defines_iff (hdriver : options.driver ∈ Driver.all) (hwrites : options.writeEnv = true)
    (hdry : options.dryRun = false) (hroot : Straight root) (hclosed : s.tree.Closed) {names : List String}
    (hrun : createFiles root options s = .ok names t) :
    ∃ text, t.tree.read (root ++ [envExampleFile]) = .ok (some text) ∧
      (Defines options.driver.envVar text ↔ options.force = true ∨
        ∀ old, s.tree.read (root ++ [envExampleFile]) = .ok (some old) →
          Text.occursIn options.driver.envVar old = true → Defines options.driver.envVar old) ∧
      (options.force = false → ∀ old, s.tree.read (root ++ [envExampleFile]) = .ok (some old) →
        Text.trimEnd old.toList <+: text.toList) := by
  have hpath : Straight (root ++ [envExampleFile]) := hroot.append (by decide)
  have hitem : (envItem options).path root = root ++ [envExampleFile] := envItem_path root options
  have hmem : envItem options ∈ items options := by simp [items, hwrites]
  rw [createFiles_eq] at hrun
  obtain ⟨given, _, hitems, hrun⟩ := returns_bind hrun
  cases hrun
  have hcourse := course hdry (List.Subset.refl _) (places_nodup root options) s
  rw [after_eq hitems] at hcourse
  obtain ⟨u, names, v, hturn, hturned⟩ := exists_turn hitems hmem
  rcases returns_envItem hdry hmem hturned with ⟨text, hleave, hstores⟩ | ⟨old, hread, hforce, hmentions⟩
  · have hwritten : Written root options (items options) s (envItem options) text :=
      ⟨u, hturn, hleave, by rw [after_eq hturned, hitem]; exact hstores⟩
    have hfinal := hcourse.read_written (hitem ▸ hpath) hwritten
    obtain ⟨hsuffix, hreturn⟩ := hleave.env_text hdriver
    rw [hitem, Text.withLineFeeds_of_not_mem hreturn] at hfinal
    refine ⟨text, hfinal, iff_of_true (defines_of_suffix hdriver hsuffix) ?_, fun hforce old hread => ?_⟩
    · cases hforce : options.force with
      | true => exact .inl rfl
      | false =>
        refine .inr fun old hread hmentions => ?_
        obtain ⟨hlacks, -⟩ := hturn.env_added hdry hroot hclosed hforce hleave hread
        rw [hmentions] at hlacks
        cases hlacks
    · obtain ⟨-, rfl⟩ := hturn.env_added hdry hroot hclosed hforce hleave hread
      exact trimEnd_mergeEnv old (envFile options)
  · obtain ⟨-, hbefore⟩ := hturn.env_kept hdry hroot hclosed hread
    have hno : ∀ text, ¬ Written root options (items options) s (envItem options) text := by
      rintro text ⟨u', hturn', hleave, -⟩
      obtain rfl := hturn.unique (items_nodup options) hturn'
      rw [added_iff (probe_of_read hread) hforce hread, hmentions] at hleave
      cases hleave.1
    have hfinal := hcourse.read_unwritten (places_nodup root options) hmem (hitem ▸ hpath)
      (hitem ▸ hbefore) hno
    refine ⟨old, hitem ▸ hfinal, ?_, fun _ old' hread' => ?_⟩
    · simp [hforce, hbefore, hmentions]
    · rw [hbefore] at hread'
      cases hread'
      exact Text.trimEnd_prefix _

/-- A file with another variable is added to. -/
theorem createFiles_defines_iff_added :
    let options : Setup.Options := { dialect := .sqlite, driver := .standard .sqlite, install := false }
    let s : Session := {
      base := "/project", tree := { entries := [([".env.example"], .file (.text "API_KEY=x\n\n"))] } }
    let t := after (createFiles [] options) s
    (options.driver ∈ Driver.all ∧ options.writeEnv = true ∧ options.dryRun = false ∧ Straight [] ∧
      s.tree.Closed) ∧
    createFiles [] options s = .ok ["drizzle.config.ts", "db/index.ts", "db/schema.ts",
      ".env.example (updated)"] t ∧
    (∃ text, t.tree.read [".env.example"] = .ok (some text) ∧
      (Defines options.driver.envVar text ↔ options.force = true ∨
        ∀ old, s.tree.read [".env.example"] = .ok (some old) →
          Text.occursIn options.driver.envVar old = true → Defines options.driver.envVar old) ∧
      (options.force = false → ∀ old, s.tree.read [".env.example"] = .ok (some old) →
        Text.trimEnd old.toList <+: text.toList)) ∧
    t.tree.read [".env.example"] =
      .ok (some "API_KEY=x\n\n# Database\nDATABASE_URL=\"./sqlite.db\"\n") := by
  intro options s t
  have hrun : createFiles [] options s = .ok ["drizzle.config.ts", "db/index.ts", "db/schema.ts",
      ".env.example (updated)"] t :=
    run_eq_ok (by decide +kernel)
  have hclosed : s.tree.Closed := by decide
  have hdriver : options.driver ∈ Driver.all := by decide
  have hroot : Straight [] := rfl
  exact ⟨⟨hdriver, rfl, rfl, hroot, hclosed⟩, hrun,
    @createFiles_defines_iff [] options s t hdriver rfl rfl hroot hclosed _ hrun, by decide +kernel⟩

/-- A setup leaves the variable unset where a longer name mentions it. -/
theorem createFiles_not_defines :
    let options : Setup.Options := { dialect := .sqlite, driver := .standard .sqlite, install := false }
    let s : Session := {
      base := "/project", tree := { entries := [([".env.example"], .file (.text "MY_DATABASE_URL=x\n"))] } }
    let t := after (createFiles [] options) s
    value (createFiles [] options) s = .ok ["drizzle.config.ts", "db/index.ts", "db/schema.ts"] ∧
      t.tree.read [".env.example"] = .ok (some "MY_DATABASE_URL=x\n") ∧
      ¬ Defines options.driver.envVar "MY_DATABASE_URL=x\n" := by
  decide +kernel

end Command
end SchemaScaffold
