import SchemaScaffold.Proofs.Schema.Merging
import SchemaScaffold.Proofs.Schema.Recognition

/-!
Runs of merges and removals. A run starts from no schema, from a blank one, or from one that a setup
has written. Every step leaves a text that is blank or a layout; so at any time the schema reports the
tables that are there, in the order in which they were last written, each with the block and the enum
declarations of the definition last merged.
-/

namespace SchemaScaffold

open Source Naming Text

namespace Schema

/-- One text stands in another at exactly one place. -/
def OccursOnce (needle text : List Char) : Prop :=
  ∃ front, front ++ needle <+: text ∧ ∀ other, other ++ needle <+: text → other = front

namespace Layout

variable {L : Layout}

/-- An enum of a table is named once without being called. -/
theorem count_uses {d : Definition} (hd : d ∈ L.tables) {v : List Char} (hv : v ∈ d.enumVariables) :
    (uses L.text).count (v, false) = 1 := by
  obtain ⟨before, after, h⟩ := List.append_of_mem hd
  have hadmissible := L.harmonious.admissible d hd
  have hname := hadmissible.enumName hv
  have hless : ∀ u : Use, (u == (v, false)) = true → (u.1 == v) = true := fun u hu => by
    rw [beq_iff_eq.mp hu]
    exact beq_self_eq_true v
  have hseeks : SeeksEnums (· == (v, false)) := fun u hu => hname.seeks u (hless u hu)
  have hothers : ∀ tables : List Definition, (∀ e ∈ tables, e ∈ before ∨ e ∈ after) →
      Passage (· == (v, false)) (tables.flatMap Definition.entry) [] := fun tables htables =>
    (passage_entries h hv htables).mono hless
  have hentries := (hothers before fun _ => .inl).append_nil
    ((hadmissible.passage_own (L.harmonious.distinct d hd) hv).append_quiet
      ((hothers after fun _ => .inr).append_nil (L.passage_ending hseeks.search)))
  have huses := L.uses_top hseeks (fun dialect s hs => by simpa using hname.foreign dialect s hs)
    (before.flatMap Definition.entry ++ (d.entry ++ (after.flatMap Definition.entry ++ L.ending)))
  rw [hentries.uses] at huses
  rw [List.count_eq_length_filter, text, h, List.flatMap_append, List.flatMap_cons, List.append_assoc,
    List.append_assoc, huses]
  rfl

/-- The declaration of an enum stands in the text once. -/
theorem occursOnce_declaration {d : Definition} (hd : d ∈ L.tables) {declaration : String}
    (hdeclaration : declaration ∈ d.table.declarations) : OccursOnce declaration.toList L.text := by
  have hmem := List.mem_map_of_mem (f := String.toList) hdeclaration
  rw [d.declarations_eq] at hmem
  obtain ⟨f, hf, he⟩ := List.mem_map.mp hmem
  have hv := Definition.mem_enumVariables.mpr ⟨f, hf, rfl⟩
  rw [← he]
  obtain ⟨before, after, h⟩ := List.append_of_mem hd
  obtain ⟨earlier, later, hfields⟩ := List.append_of_mem hf
  have hplace : L.top ++ (before.flatMap Definition.entry ++ '\n' :: earlier.flatMap fun g =>
      Mapping.enumDeclaration d.table.name g ++ ['\n']) ++ Mapping.enumDeclaration d.table.name f <+:
        L.text := by
    rw [text_eq h, d.preamble_eq, if_neg (List.ne_nil_of_mem hf), hfields, List.flatMap_append,
      List.flatMap_cons]
    refine ⟨'\n' :: (later.flatMap (fun g => Mapping.enumDeclaration d.table.name g ++ ['\n']) ++
      ('\n' :: (d.table.renderBlock.toList ++ '\n' :: (after.flatMap Definition.entry ++
        L.ending)))), ?_⟩
    simp only [List.append_assoc, List.cons_append, List.nil_append]
  have hneedle : Mapping.enumDeclaration d.table.name f = "export const".toList ++
      (' ' :: ((Mapping.enumVariable d.table.name f).toList ++ [' ']) ++ '=' ::
        (' ' :: ("pgEnum".toList ++ '(' :: (Mapping.enumArguments d.table.name f ++
          ");".toList)))) := by
    have hopen : "export const ".toList = "export const".toList ++ [' '] := by decide
    have hequals : " = ".toList = [' ', '=', ' '] := by decide
    unfold Mapping.enumDeclaration statement
    rw [hopen, hequals]
    simp only [List.append_assoc, List.cons_append, List.nil_append, -String.reduceToList]
  refine ⟨_, hplace, fun other hother => ?_⟩
  have hname := (L.harmonious.admissible d hd).enumName hv
  exact front_unique hname.chars (Definition.enumVariable_ne_nil _ f) hneedle
    (Nat.le_of_eq (count_uses hd hv)) hother hplace

end Layout

/-! ## Steps -/

/-- One change of a schema. -/
inductive Step
  | merge (d : Definition) (force : Bool)
  | remove (name : String)

/-- The schema after a step. -/
def Step.apply (source : Option String) : Step → Except SourceError (Option String)
  | .merge d force => (Schema.merge source d.table force).map fun m => some m.content
  | .remove name => (Schema.remove (source.getD "") name).map some

/-- The tables that are there after a step: a merge that is not forced skips a table that is there,
and any other merge puts it at the end. -/
def Step.present (tables : List Definition) : Step → List Definition
  | .merge d force =>
    if d.table.name ∈ tables.map (·.table.name) ∧ force = false then tables
    else tables.filter (·.table.name != d.table.name) ++ [d]
  | .remove name => tables.filter (·.table.name != name)

/-- The schema after a run. -/
def run (source : Option String) (steps : List Step) : Except SourceError (Option String) :=
  steps.foldlM Step.apply source

/-- The tables that are there after a run that starts without tables. -/
def presentAfter (steps : List Step) : List Definition := steps.foldl Step.present []

/-- The definitions that a run merges. -/
def merged (steps : List Step) : List Definition :=
  steps.filterMap fun
    | .merge d _ => some d
    | .remove _ => none

/-- What a run may merge: definitions that bring nothing along that is looked for, and give different
fields different enum variables. -/
structure Coherent (steps : List Step) : Prop where
  admissible : ∀ d ∈ merged steps, d.Admissible
  apart : ∀ d ∈ merged steps, ∀ e ∈ merged steps,
    ∀ f ∈ Mapping.nativeEnums d.dialect d.fields, ∀ g ∈ Mapping.nativeEnums e.dialect e.fields,
      Mapping.enumVariable d.table.name f = Mapping.enumVariable e.table.name g →
        d.table.name = e.table.name ∧ f.name = g.name

/-- Where a run starts. -/
inductive Start : Option String → Prop
  | blank {source : Option String} (h : allBlank (source.getD "").toList = true) : Start source
  | setup (dialect : Dialect) : Start (some (Setup.emptySchema dialect))

/-- What a schema shows of the tables that are there. -/
structure Shows (tables : List Definition) (source : Option String) : Prop where
  names : tableNames (source.getD "").toList = tables.map (·.table.name)
  distinct : (tables.map (·.table.name)).Nodup
  blocks : ∀ d ∈ tables, tableBlock? (source.getD "") d.table.name =
    .ok (some (d.table.renderBlock ++ "\n"))
  declarations : ∀ d ∈ tables, ∀ declaration ∈ d.table.declarations,
    OccursOnce declaration.toList (source.getD "").toList
  skips : ∀ (d : Definition) (force : Bool) (m : Merge), merge source d.table force = .ok m →
    (m.action = .skipped ↔ d.table.name ∈ tables.map (·.table.name) ∧ force = false)

/-- The texts that runs come to. -/
inductive Holds : List Definition → Option String → Prop
  | blank {source : Option String} (h : allBlank (source.getD "").toList = true) : Holds [] source
  | layout (L : Layout) : Holds L.tables (some (String.ofList L.text))

theorem tableNames_of_blank {cs : List Char} (h : allBlank cs = true) : tableNames cs = [] := by
  have hquotes : cs.countP isQuote = 0 := List.countP_eq_zero.mpr fun c hc => by
    simp [not_isQuote_of_isBlank (List.all_eq_true.mp h c hc)]
  rw [tableNames, mask_of_blank h, callNames_of_quotes (by omega)]
  rfl

/-- What holds of the text holds of what is read from it. -/
theorem Holds.shows {tables : List Definition} {source : Option String} (h : Holds tables source) :
    Shows tables source := by
  cases h with
  | blank hblank =>
    refine ⟨tableNames_of_blank hblank, by simp, by simp, by simp, fun d force m hm => ?_⟩
    rcases merge_cases hm with ⟨hnot, -⟩ | ⟨haction, -⟩
    · rw [hblank] at hnot
      cases hnot
    · rw [haction]
      exact iff_of_false (written_ne_skipped _ _) (by simp)
  | layout L =>
    refine ⟨?_, L.harmonious.names, fun d hd => ?_, fun d hd declaration hmem => ?_,
      fun d force m hm => ?_⟩
    · rw [Option.getD_some, String.toList_ofList, L.tableNames_text]
    · have hblock : String.ofList (d.table.renderBlock.toList ++ ['\n']) =
          d.table.renderBlock ++ "\n" := by
        apply String.toList_injective
        rw [String.toList_ofList, String.toList_append]
        rfl
      rw [tableBlock?, Option.getD_some, String.toList_ofList, L.tableBlock?_text hd, Except.map,
        Option.map_some, hblock]
    · rw [Option.getD_some, String.toList_ofList]
      exact Layout.occursOnce_declaration hd hmem
    · rcases merge_cases hm with ⟨-, hexists, hforce, rfl⟩ | ⟨haction, -⟩
      · rw [Option.getD_some, String.toList_ofList, L.tableExists_name] at hexists
        exact iff_of_true rfl ⟨hexists, hforce⟩
      · rw [haction]
        refine iff_of_false (written_ne_skipped _ _) ?_
        rintro ⟨hmem, rfl⟩
        rw [L.merge_skips hmem] at hm
        rw [← Except.ok.inj hm] at haction
        exact written_ne_skipped _ _ haction.symm

/-- A merge leads from one such text to another. -/
theorem Holds.merge {tables : List Definition} {source : Option String} (h : Holds tables source)
    {d : Definition} {force : Bool} (hnew : Harmonious ((Step.merge d force).present tables)) :
    ∃ reached, (Step.merge d force).apply source = .ok reached ∧
      Holds ((Step.merge d force).present tables) reached := by
  cases h with
  | blank hblank =>
    have hpresent : (Step.merge d force).present [] = [d] := by simp [Step.present]
    rw [hpresent] at hnew ⊢
    obtain ⟨M, hM, htables⟩ := Layout.exists_fresh hnew
    refine ⟨some (fresh d.table), ?_, ?_⟩
    · simp only [Step.apply, Schema.merge, hblank]
      rfl
    · rw [← htables, ← String.ofList_toList (s := fresh d.table), hM]
      exact .layout M
  | layout L =>
    by_cases hskip : d.table.name ∈ L.tables.map (·.table.name) ∧ force = false
    · obtain ⟨hmem, rfl⟩ := hskip
      rw [Step.present, if_pos ⟨hmem, rfl⟩]
      refine ⟨some (String.ofList L.text), ?_, .layout L⟩
      rw [Step.apply, L.merge_skips hmem]
      rfl
    · rw [Step.present, if_neg hskip] at hnew ⊢
      obtain ⟨M, action, hM, -, htables⟩ := L.merge_writes
        (fun hmem => by simpa using fun hforce => hskip ⟨hmem, hforce⟩) hnew
      refine ⟨some (String.ofList M.text), ?_, ?_⟩
      · rw [Step.apply, hM]
        rfl
      · rw [← htables]
        exact .layout M

/-- So does a removal. -/
theorem Holds.remove {tables : List Definition} {source : Option String} (h : Holds tables source)
    {name : String} (hname : ∀ c ∈ name.toList, isQuote c = false) :
    ∃ reached, (Step.remove name).apply source = .ok reached ∧
      Holds ((Step.remove name).present tables) reached := by
  cases h with
  | blank hblank =>
    have hexists : tableExists (source.getD "").toList name.toList = false := by
      rw [← Bool.not_eq_true]
      intro hexists
      rw [not_allBlank_of_tableExists hexists] at hblank
      cases hblank
    have hremoved : removeTable (source.getD "").toList name.toList =
        .ok (source.getD "").toList := by
      rw [removeTable, locateTable, hexists]
      rfl
    refine ⟨some (source.getD ""), ?_, .blank hblank⟩
    rw [Step.apply, Schema.remove, hremoved, Except.map, String.ofList_toList]
    rfl
  | layout L =>
    by_cases hthere : name ∈ L.tables.map (·.table.name)
    · obtain ⟨d, hd, rfl⟩ := List.mem_map.mp hthere
      obtain ⟨before, after, hL⟩ := List.append_of_mem hd
      obtain ⟨M, hM, htables⟩ := Layout.removeTable_text hL
      refine ⟨some (String.ofList M.text), ?_, ?_⟩
      · rw [Step.apply, Schema.remove, Option.getD_some, String.toList_ofList, hM]
        rfl
      · rw [Step.present, Layout.filter_others hL, ← htables]
        exact .layout M
    · have hall : (Step.remove name).present L.tables = L.tables :=
        List.filter_eq_self.mpr fun e he => by
          simpa using fun hsame : e.table.name = name => hthere (List.mem_map.mpr ⟨e, he, hsame⟩)
      have habsent : ∀ d ∈ L.tables, d.table.name.toList ≠ name.toList := fun d hd hsame =>
        hthere (List.mem_map.mpr ⟨d, hd, String.toList_injective hsame⟩)
      refine ⟨some (String.ofList L.text), ?_, ?_⟩
      · rw [Step.apply, Schema.remove, Option.getD_some, String.toList_ofList,
          Layout.removeTable_absent hname habsent]
        rfl
      · rw [hall]
        exact .layout L

/-- What a coherent run merges can stand in one schema, as long as the names are different. -/
theorem Coherent.harmonious {steps : List Step} (h : Coherent steps) {tables : List Definition}
    (htables : ∀ d ∈ tables, d ∈ merged steps) (hnames : (tables.map (·.table.name)).Nodup) :
    Harmonious tables where
  admissible d hd := h.admissible d (htables d hd)
  names := hnames
  distinct d hd := by
    have hfields : d.fields.Pairwise fun f g => f.name ≠ g.name :=
      List.pairwise_map.mp (h.admissible d (htables d hd)).distinct
    refine List.pairwise_map.mpr (List.Pairwise.imp_of_mem ?_ (hfields.sublist List.filter_sublist))
    intro f g hf hg hne he
    exact hne (h.apart d (htables d hd) d (htables d hd) f hf g hg (String.toList_injective he)).2
  apart d hd e he hne v hv hv' := by
    obtain ⟨f, hf, rfl⟩ := Definition.mem_enumVariables.mp hv
    obtain ⟨g, hg, hsame⟩ := Definition.mem_enumVariables.mp hv'
    exact hne (h.apart e (htables e he) d (htables d hd) g hg f hf (String.toList_injective hsame)).1

/-- A step of a coherent run. -/
theorem Holds.step {steps : List Step} (hcoherent : Coherent steps)
    (hremoved : ∀ name, .remove name ∈ steps → ∀ c ∈ name.toList, isQuote c = false)
    {tables : List Definition} {source : Option String} (h : Holds tables source)
    (htables : ∀ d ∈ tables, d ∈ merged steps) {step : Step} (hstep : step ∈ steps) :
    (∀ d ∈ step.present tables, d ∈ merged steps) ∧
      ∃ reached, step.apply source = .ok reached ∧ Holds (step.present tables) reached := by
  have hfilter : ∀ name : String, ∀ d ∈ tables.filter (·.table.name != name), d ∈ merged steps :=
    fun name d hd => htables d (List.mem_filter.mp hd).1
  cases step with
  | remove name => exact ⟨hfilter name, h.remove (hremoved name hstep)⟩
  | merge d force =>
    have hd : d ∈ merged steps := List.mem_filterMap.mpr ⟨_, hstep, rfl⟩
    have hmem : ∀ e ∈ (Step.merge d force).present tables, e ∈ merged steps := by
      intro e he
      rw [Step.present] at he
      split at he
      · exact htables e he
      · rcases List.mem_append.mp he with he | he
        · exact hfilter _ e he
        · rw [List.mem_singleton.mp he]
          exact hd
    have hnames : (((Step.merge d force).present tables).map (·.table.name)).Nodup := by
      rw [Step.present]
      split
      · exact h.shows.distinct
      · rw [List.map_append, List.nodup_append]
        refine ⟨h.shows.distinct.sublist (List.filter_sublist.map _), by simp, ?_⟩
        rintro a ha b hb rfl
        obtain ⟨e, he, hsame⟩ := List.mem_map.mp ha
        have hother := (List.mem_filter.mp he).2
        rw [List.mem_singleton.mp hb] at hsame
        simp [hsame] at hother
    exact ⟨hmem, h.merge (hcoherent.harmonious hmem hnames)⟩

/-- A whole run keeps what a step keeps. -/
theorem Holds.run {steps : List Step} (hcoherent : Coherent steps)
    (hremoved : ∀ name, .remove name ∈ steps → ∀ c ∈ name.toList, isQuote c = false)
    {taken : List Step} (htaken : ∀ step ∈ taken, step ∈ steps) {tables : List Definition}
    {source : Option String} (h : Holds tables source) (htables : ∀ d ∈ tables, d ∈ merged steps) :
    ∃ reached, Schema.run source taken = .ok reached ∧
      Holds (taken.foldl Step.present tables) reached := by
  induction taken generalizing tables source with
  | nil => exact ⟨source, rfl, h⟩
  | cons step taken ih =>
    obtain ⟨hmem, next, happly, hnext⟩ := h.step hcoherent hremoved htables (htaken step (by simp))
    obtain ⟨reached, hrun, hreached⟩ :=
      ih (fun other hother => htaken other (List.mem_cons_of_mem _ hother)) hnext hmem
    refine ⟨reached, ?_, hreached⟩
    rw [Schema.run, List.foldlM_cons, happly]
    exact hrun

theorem Start.holds {source : Option String} (h : Start source) : Holds [] source := by
  cases h with
  | blank hblank => exact .blank hblank
  | setup dialect =>
    obtain ⟨M, hM, htables⟩ := Layout.exists_emptySchema dialect
    rw [← htables, ← String.ofList_toList (s := Setup.emptySchema dialect), hM]
    exact .layout M

/-- In a coherent run in which the names of removed tables hold no quote, no step fails. After every
step the schema reports the tables that are there, each once and in the order in which they were last
written; it holds the block of the definition last merged for each, and each of its enum declarations
once. -/
theorem run_shows {source : Option String} (hstart : Start source) {steps : List Step}
    (h : Coherent steps)
    (hremoved : ∀ name, .remove name ∈ steps → ∀ c ∈ name.toList, isQuote c = false)
    {taken : List Step} (htaken : taken <+: steps) :
    ∃ reached, run source taken = .ok reached ∧ Shows (presentAfter taken) reached := by
  obtain ⟨reached, hrun, hreached⟩ :=
    hstart.holds.run h hremoved (fun step hstep => htaken.subset hstep) (by simp)
  exact ⟨reached, hrun, hreached.shows⟩

/-- A table with a native enum. -/
def posts : Definition :=
  .build "Post" ["title", "state:enum:draft,live"] .postgresql {} rfl rfl rfl

theorem no_fields_parsed : Field.parseAll [] = .ok [] := rfl

theorem no_fields_distinct : checkColumnNames [] false = .ok () := rfl

/-- A table with its key alone. -/
def users : Definition :=
  .build "User" [] .sqlite { timestamps := false } rfl no_fields_parsed no_fields_distinct

/-- A run that mixes dialects, and in the end removes a table. -/
def mixedSteps : List Step :=
  [.merge posts false, .merge users false, .merge posts true, .remove "users"]

theorem coherent_mixedSteps : Coherent mixedSteps where
  admissible d hd := by
    have hposts : posts.Admissible :=
      ⟨by decide +kernel, by decide +kernel, by decide +kernel, by decide +kernel⟩
    have husers : users.Admissible :=
      ⟨by decide +kernel, by decide +kernel, by decide +kernel, by decide +kernel⟩
    simp only [merged, mixedSteps, List.filterMap_cons, List.filterMap_nil, List.mem_cons,
      List.not_mem_nil, or_false] at hd
    rcases hd with rfl | rfl | rfl
    · exact hposts
    · exact husers
    · exact hposts
  apart := by decide +kernel

theorem run_shows_mixed : Start none ∧ Coherent mixedSteps ∧
    (∀ name, .remove name ∈ mixedSteps → ∀ c ∈ name.toList, isQuote c = false) ∧
    mixedSteps.take 3 <+: mixedSteps ∧ ∃ reached, run none (mixedSteps.take 3) = .ok reached ∧
      Shows (presentAfter (mixedSteps.take 3)) reached := by
  have hplain : ("users".toList.all fun c => !isQuote c) = true := by decide
  have hremoved : ∀ name, .remove name ∈ mixedSteps → ∀ c ∈ name.toList, isQuote c = false := by
    intro name hname
    simp only [mixedSteps, List.mem_cons, reduceCtorEq, Step.remove.injEq, List.not_mem_nil, or_false,
      false_or] at hname
    rw [hname]
    simpa using List.all_eq_true.mp hplain
  have hstart : Start none := .blank rfl
  have htaken : mixedSteps.take 3 <+: mixedSteps := List.take_prefix _ _
  exact ⟨hstart, coherent_mixedSteps, hremoved, htaken,
    run_shows hstart coherent_mixedSteps hremoved htaken⟩

/-- The name of a table and what stands behind it, up to the next quote. -/
def overrun : List Step := [.merge users false, .remove "users\", \x7b\n  id: integer("]

/-- A name that holds a quote can match the start of a block, and then another table is removed. -/
theorem run_removes_other : Start none ∧ Coherent overrun ∧
    ¬ ∃ reached, run none overrun = .ok reached ∧ Shows (presentAfter overrun) reached := by
  have hcoherent : Coherent overrun := by
    refine ⟨fun d hd => ?_, by decide +kernel⟩
    have hd : d = users := by simpa [merged, overrun] using hd
    rw [hd]
    exact ⟨by decide +kernel, by decide +kernel, by decide +kernel, by decide +kernel⟩
  have hpresent : (presentAfter overrun).map (·.table.name) = ["users"] := by decide +kernel
  have hrun : (match run none overrun with
      | .ok reached => decide (tableNames (reached.getD "").toList = [])
      | .error _ => false) = true := by decide +kernel
  refine ⟨.blank rfl, hcoherent, ?_⟩
  rintro ⟨reached, hreached, hshows⟩
  rw [hreached] at hrun
  have hnames := hshows.names
  rw [of_decide_eq_true hrun, hpresent] at hnames
  cases hnames

end Schema
end SchemaScaffold
