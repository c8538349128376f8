import SchemaScaffold.Proofs.Schema.Recognition
import SchemaScaffold.Proofs.Source.Tables

/-!
Replacing a table. A forced merge puts the block behind what it keeps of the old text, so the table
is declared once, and found with the new block, exactly when what is kept neither reports the table
nor declares it with another block. That is not always so: the header is kept as it stands, and it
can hold the old declaration, between two block comments.
-/

namespace SchemaScaffold

open Source Naming Text

namespace Source

/-- Whether the first declaration of a table in a text starts otherwise than with `block`. -/
def declaresOther (name block source : List Char) : Bool :=
  match atLineStart? (tableDeclaration? name) true (mask source) with
  | some (start, _) => !block.isPrefixOf (source.drop start)
  | none => false

/-- Where a line starts in the text that is read, the text itself has not ended. -/
theorem lineStart_lt {k : List Char} {start : Nat}
    (h : (mask k).drop start ∈ lineStarts true (mask k)) : start < k.length := by
  rw [← mask_length k]
  exact List.length_lt_of_drop_ne_nil (lineStarts_suffix h).2

/-- Where a line starts in the text that is read, a line ends in the text itself. -/
theorem lineStart_endsLine {k : List Char} {start : Nat}
    (h : (mask k).drop start ∈ lineStarts true (mask k)) : EndsLine (k.take start) := by
  obtain ⟨front, he, hends⟩ := lineStarts_front h
  have hsame : front = (mask k).take start :=
    (List.append_cancel_right ((List.take_append_drop start (mask k)).trans he)).symm
  refine endsLine_of_breaks ?_ hends
  rw [hsame, List.map_take, List.map_take, mask_breaks]

end Source

namespace Definition

variable (d : Definition)

theorem mask_block : mask (d.table.renderBlock.toList ++ ['\n']) = d.table.renderBlock.toList ++ ['\n'] :=
  mask_inline_self (d.inline_renderBlock.append (t := ['\n']) (by decide))

theorem exports_block : Exports (d.table.renderBlock.toList ++ ['\n']) := by
  rw [d.renderBlock_eq]
  exact (exports_statement _ _ _).append _

/-- The block behind a text ends no copy of itself that starts in the text. -/
theorem prefix_of_behind {k u : List Char} (hk : ['\n', '\n'] <:+ k) (hu : u <:+ k) (hne : u ≠ [])
    (h : d.table.renderBlock.toList ++ ['\n'] <+: u ++ (d.table.renderBlock.toList ++ ['\n'])) :
    d.table.renderBlock.toList ++ ['\n'] <+: u := by
  refine (List.prefix_or_prefix_of_prefix h (List.prefix_append u _)).resolve_right fun hshort => ?_
  rcases List.suffix_or_suffix_of_suffix hu hk with hu | hu
  · obtain ⟨rest, hrest⟩ := d.exports_block.cons
    obtain ⟨c, u, rfl⟩ := List.exists_cons_of_ne_nil hne
    have hc : c = '\n' := by simpa using hu.subset List.mem_cons_self
    rw [hrest, hc, List.cons_prefix_cons] at hshort
    exact absurd hshort.1 (by decide)
  · exact d.paragraph_block.unpaired.1 (hu.isInfix.trans hshort.isInfix)

section Scalar

variable (hscalar : ∀ f ∈ d.fields, f.isEnum = false)

include hscalar

theorem enumValues_scalar : enumValues d.fields = [] := by
  refine List.flatMap_eq_nil_iff.mpr fun f hf => ?_
  rw [(d.field_accepted hf).values (hscalar f hf)]
  rfl

theorem preamble_scalar : d.table.preamble = [] := by
  have hnone : Mapping.nativeEnums d.dialect d.fields = [] := by
    refine List.filter_eq_nil_iff.mpr fun f hf hnative => ?_
    have htype := ((Mapping.standardType_nativeEnum _ _).mp hnative).2
    have hf := hscalar f hf
    simp [Field.isEnum, htype] at hf
  rw [d.preamble_eq, if_pos hnone]

theorem unmarked_scalar : ∀ f ∈ d.fields, f.Unmarked callsTableFunction := by
  intro f hf
  refine ⟨fun _ _ => rfl, fun _ => rfl, fun value hvalue => ?_⟩
  rw [(d.field_accepted hf).values (hscalar f hf)] at hvalue
  cases hvalue

/-- A property of plain characters holds of every character of the block. -/
theorem not_mem_block {c : Char} (hplain : isPlain c = false) (hbreak : c ≠ '\n') :
    c ∉ d.table.renderBlock.toList ++ ['\n'] := by
  have hnone : ∀ {s : List Char}, s.all isPlain = true → c ∉ s := not_mem_of_plain hplain
  have hpieces : Piecewise (fun s => c ∉ s) (enumValues d.fields) :=
    { append := fun ha hb => by simp [ha, hb]
      plain := hnone
      literal := by simp [d.enumValues_scalar hscalar] }
  exact d.piecewise_block hpieces fun _ h => by simp [hnone h, hbreak]

theorem slash_not_mem_block : '/' ∉ d.table.renderBlock.toList ++ ['\n'] :=
  d.not_mem_block hscalar (by decide) (by decide)

/-- Nothing that a text leaves open ends in the block. -/
theorem seam_block {k : List Char} (hk : EndsLine k) :
    Seam k (d.table.renderBlock.toList ++ ['\n']) where
  endsLine := hk
  backtick h := absurd h (d.not_mem_block hscalar (by decide) (by decide))
  comment h := absurd (h.subset (by simp)) (d.slash_not_mem_block hscalar)

/-- The block hides nothing of a text that ends a line, and nothing of it is hidden. -/
theorem mask_behind_block {k : List Char} (hk : EndsLine k) :
    mask (k ++ (d.table.renderBlock.toList ++ ['\n'])) =
      mask k ++ (d.table.renderBlock.toList ++ ['\n']) := by
  rw [mask_append (d.seam_block hscalar hk), d.mask_block]

/-- The declaration of the table is looked for in a text first, and then in the block behind it. -/
theorem declaration_behind (hname : d.table.name ≠ "") {k : List Char} (hk : EndsLine k) :
    atLineStart? (tableDeclaration? d.table.name.toList) true
        (mask (k ++ (d.table.renderBlock.toList ++ ['\n']))) =
      match atLineStart? (tableDeclaration? d.table.name.toList) true (mask k) with
      | some (start, rest) => some (start, rest ++ (d.table.renderBlock.toList ++ ['\n']))
      | none => some (k.length, d.fromCall []) := by
  have hbreak : '\n' ∉ d.table.name.toList := fun h => absurd (d.name_chars _ h) (by decide)
  have hreads : ∀ x ∈ lineStarts true (mask k),
      tableDeclaration? d.table.name.toList (x ++ (d.table.renderBlock.toList ++ ['\n'])) =
        (tableDeclaration? d.table.name.toList x).map (· ++ (d.table.renderBlock.toList ++ ['\n'])) := by
    intro x hx
    obtain ⟨hsuffix, hne⟩ := lineStarts_suffix hx
    exact tableDeclaration?_exports (hk.mask.suffix hsuffix) d.exports_block hne hbreak
  have hblock : atLineStart? (tableDeclaration? d.table.name.toList) true
      (d.table.renderBlock.toList ++ ['\n']) = some (0, d.fromCall []) :=
    atLineStart?_here (by simp) (d.tableDeclaration?_block hname [])
  rw [d.mask_behind_block hscalar hk, atLineStart?_append hk.mask hreads, Bool.true_or, hblock,
    mask_length]
  rfl

/-- Behind a text, the block reports its table, unless the text leaves a table call open. -/
theorem count_tableNames (hname : d.table.name ≠ "") {k : List Char} (hk : EndsLine k) :
    (tableNames (k ++ (d.table.renderBlock.toList ++ ['\n']))).count d.table.name =
      (tableNames k).count d.table.name + if leavesCallOpen k then 0 else 1 := by
  have hquote : Seam k ['"'] :=
    { endsLine := hk
      backtick := fun h => absurd h (by decide)
      comment := fun h => absurd (h.subset (by simp : '*' ∈ ['*', '/'])) (by decide) }
  have hone : mask ['"'] = ['"'] ∧ callNames ['"'] = [] := by
    refine ⟨by decide +kernel, by decide +kernel⟩
  have hbare : FirstQuote [] [] := ⟨by simp, by simp, fun _ => rfl⟩
  have hquotes : tableNames (k ++ ['"']) = (callNames (mask k ++ ['"'])).map String.ofList := by
    rw [tableNames, mask_append hquote, hone.1]
  have hblock := d.callNames_block (d.unmarked_scalar hscalar) hname []
  rw [List.append_nil, callNames, d.block_parts] at hblock
  have hcontent : tableNames (k ++ (d.table.renderBlock.toList ++ ['\n'])) =
      (callNames (mask k ++ (d.opening ++ '"' :: (d.table.name.toList ++ '"' :: d.remainder)))).map
        String.ofList := by
    rw [tableNames, d.mask_behind_block hscalar hk, d.block_parts]
  rcases callNames_append hk.mask with hnone | ⟨t, ht, hsome⟩
  · have hclosed : leavesCallOpen k = false := by
      have hbare := hnone [] [] hbare
      rw [List.nil_append, hone.2, List.append_nil] at hbare
      rw [leavesCallOpen, hquotes, hbare]
      simp [tableNames]
    rw [hcontent, hnone _ _ d.firstQuote_block, hblock, hclosed, List.map_append, List.count_append]
    simp [tableNames]
  · have hopen : leavesCallOpen k = true := by
      have hbare := hsome [] [] hbare
      rw [List.nil_append, callNames, List.append_nil] at hbare
      rw [leavesCallOpen, hquotes, hbare]
      simp [tableNames]
    have hafter : callNames (d.table.name.toList ++ '"' :: d.remainder) = [] := by
      have := d.callNames_name (d.unmarked_scalar hscalar) []
      rwa [List.append_nil, callNames] at this
    have hother : String.ofList (t ++ d.opening) ≠ d.table.name := by
      intro he
      have hbreak : '\n' ∈ d.table.name.toList := by
        rw [← he, String.toList_ofList]
        exact List.mem_append_left _ ht
      exact absurd (d.name_chars _ hbreak) (by decide)
    rw [hcontent, hsome _ _ d.firstQuote_block, hafter, hopen, List.map_append, List.count_append,
      List.map_singleton, List.count_cons_of_ne hother]
    rfl

/-- A copy of the block that is found within a text is what is found of its table. -/
theorem tableBlock?_within (hname : d.table.name ≠ "") {k content rest after : List Char} {start : Nat}
    (hexists : tableExists (k ++ content) d.table.name.toList = true)
    (hfound : atLineStart? (tableDeclaration? d.table.name.toList) true (mask k) = some (start, rest))
    (hsearch : atLineStart? (tableDeclaration? d.table.name.toList) true (mask (k ++ content)) =
      some (start, rest ++ content))
    (hafter : d.table.renderBlock.toList ++ ['\n'] ++ after = k.drop start) :
    Source.tableBlock? (k ++ content) d.table.name.toList =
      .ok (some (d.table.renderBlock.toList ++ ['\n'])) := by
  obtain ⟨hstart, hread⟩ := atLineStart?_some hfound
  have hwithin := lineStart_lt hstart
  have hlength : (k.take start).length = start := by
    rw [List.length_take]
    omega
  have hsplit : k.take start ++ (d.table.renderBlock.toList ++ ['\n'] ++ after) = k := by
    rw [hafter, List.take_append_drop]
  obtain ⟨before, shown, after', hmask, hbefore, hshown⟩ :=
    mask_behind _ after (d.slash_not_mem_block hscalar) (k.take start) (lineStart_endsLine hstart)
  rw [hsplit] at hmask
  have hdrop : (mask k).drop start = shown ++ after' := by
    rw [hmask, ← hlength, ← hbefore, List.drop_left]
  rw [hdrop] at hread
  rcases hshown with rfl | ⟨rfl, -⟩
  · have hrest : rest = d.fromCall after' := by
      have hblock := d.tableDeclaration?_block hname after'
      rw [List.append_assoc, List.singleton_append, hblock] at hread
      exact (Option.some.inj hread).symm
    have hrests : after'.length = after.length := by
      have htotal := congrArg List.length hmask
      rw [mask_length, ← hsplit, hsplit] at htotal
      have hparts := congrArg List.length hsplit
      simp only [List.length_append, List.length_cons, List.length_nil] at htotal hparts
      omega
    refine d.tableBlock?_at (k.take start) (after ++ content) ?_ hexists
      (hlength.symm ▸ hsearch) ?_
    · rw [← hsplit]
      simp [hlength]
    · rw [hrest]
      simp only [fromCall, List.length_append, List.length_cons, hrests]
      omega
  · have hblanked : blanked (d.table.renderBlock.toList ++ ['\n']) ++ after' =
        blanked d.firstLine ++ '\n' :: (blanked d.closing ++ after') := by
      rw [d.block_eq]
      simp [blanked]
    rw [hblanked, tableDeclaration?, constant?_blanked d.newline_not_mem_firstLine] at hread
    cases hread

/-- Behind a text the block is what is found of its table, unless the text declares another. -/
theorem tableBlock?_behind (hname : d.table.name ≠ "") {k : List Char} (hk : ['\n', '\n'] <:+ k) :
    Source.tableBlock? (k ++ (d.table.renderBlock.toList ++ ['\n'])) d.table.name.toList =
        .ok (some (d.table.renderBlock.toList ++ ['\n'])) ↔
      declaresOther d.table.name.toList (d.table.renderBlock.toList ++ ['\n']) k = false := by
  have hends : EndsLine k := by
    obtain ⟨front, rfl⟩ := hk
    exact fun c hc => by simpa using hc.symm
  have hexists : tableExists (k ++ (d.table.renderBlock.toList ++ ['\n'])) d.table.name.toList = true :=
    d.tableExists_behind (fun f hf value hvalue => by
      rw [(d.field_accepted hf).values (hscalar f hf)] at hvalue
      cases hvalue) k ((List.suffix_append ['\n'] ['\n']).trans hk)
  have hsearch := d.declaration_behind hscalar hname hends
  cases hfound : atLineStart? (tableDeclaration? d.table.name.toList) true (mask k) with
  | none =>
    have hother : declaresOther d.table.name.toList (d.table.renderBlock.toList ++ ['\n']) k = false := by
      rw [declaresOther, hfound]
    rw [hfound] at hsearch
    exact iff_of_true (d.tableBlock?_at k [] rfl hexists hsearch rfl) hother
  | some found =>
    obtain ⟨start, rest⟩ := found
    rw [hfound] at hsearch
    obtain ⟨hstart, hread⟩ := atLineStart?_some hfound
    have hother : declaresOther d.table.name.toList (d.table.renderBlock.toList ++ ['\n']) k = false ↔
        d.table.renderBlock.toList ++ ['\n'] <+: k.drop start := by
      rw [declaresOther, hfound]
      simp
    rw [hother]
    constructor
    · intro hblock
      rw [tableBlock?_found hexists hsearch] at hblock
      obtain ⟨stop, -, hcut⟩ := map_ok hblock
      have hwithin := lineStart_lt hstart
      refine d.prefix_of_behind hk (List.drop_suffix start k) (by simpa using hwithin) ?_
      rw [← List.drop_append_of_le_length (Nat.le_of_lt hwithin)]
      have hprefix := List.take_prefix (stop - start)
        ((k ++ (d.table.renderBlock.toList ++ ['\n'])).drop start)
      rwa [Option.some.inj hcut] at hprefix
    · rintro ⟨after, hafter⟩
      exact d.tableBlock?_within hscalar hname hexists hfound hsearch hafter

end Scalar
end Definition

namespace Schema

theorem map_ofList_eq_ok {x : Except SourceError (Option (List Char))} {s : String} :
    (x.map fun text? => text?.map String.ofList) = .ok (some s) ↔ x = .ok (some s.toList) := by
  constructor
  · intro h
    obtain ⟨text?, rfl, hs⟩ := map_ok h
    obtain ⟨text, rfl, rfl⟩ := Option.map_eq_some_iff.mp hs
    rw [String.toList_ofList]
  · rintro rfl
    simp [Except.map]

/-- Forcing a table without enums into a text that reports it once replaces it. The new text reports
it once, and the table's block is the new one, exactly when what is kept before the block neither
reports the table nor declares it first with another block. Where what is kept leaves a table call
open, the block is taken for the rest of that name and not reported itself. -/
theorem merge_replaces_once_iff (d : Definition) (hscalar : ∀ f ∈ d.fields, f.isEnum = false)
    {existing : String} (honce : (tableNames existing.toList).count d.table.name = 1) {m : Merge}
    (h : merge (some existing) d.table true = .ok m) :
    m.action = .replaced ∧ ∃ k, kept (some existing) d.table = .ok k ∧
      (((tableNames m.content.toList).count d.table.name = 1 ∧
          tableBlock? m.content d.table.name = .ok (some (d.table.renderBlock ++ "\n"))) ↔
        (tableNames k).count d.table.name = (if leavesCallOpen k then 1 else 0) ∧
          declaresOther d.table.name.toList (d.table.renderBlock.toList ++ ['\n']) k = false) := by
  have hmem : d.table.name ∈ tableNames existing.toList :=
    List.count_pos_iff.mp (by rw [honce]; decide)
  have hname : d.table.name ≠ "" := ne_empty_of_mem hmem
  have hexists := tableExists_of_mem hmem
  rcases merge_cases h with ⟨-, -, hforce, -⟩ | ⟨haction, k, hk, hcontent⟩
  · cases hforce
  · have hends := kept_ends hk
    have hline : EndsLine k := by
      obtain ⟨front, rfl⟩ := hends
      exact fun c hc => by simpa using hc.symm
    rw [d.table.render_toList, d.preamble_scalar hscalar, List.nil_append] at hcontent
    refine ⟨?_, k, hk, ?_⟩
    · rw [haction, written, if_neg, if_pos]
      · exact hexists
      · rw [Option.getD_some, not_allBlank_of_tableExists hexists]
        decide
    · have hbreak : (d.table.renderBlock ++ "\n").toList = d.table.renderBlock.toList ++ ['\n'] := by
        rw [String.toList_append]
        rfl
      have hfound : tableBlock? m.content d.table.name = .ok (some (d.table.renderBlock ++ "\n")) ↔
          Source.tableBlock? m.content.toList d.table.name.toList =
            .ok (some (d.table.renderBlock.toList ++ ['\n'])) := by
        rw [tableBlock?, ← hbreak]
        exact map_ofList_eq_ok
      rw [hfound, hcontent, d.tableBlock?_behind hscalar hname hends,
        d.count_tableNames hscalar hname hline]
      refine and_congr_left fun _ => ?_
      cases leavesCallOpen k <;> simp

theorem tag_accepted : validateModelName "Tag" = .ok () := rfl

/-- A table with its key alone. -/
def keyedTags : Definition := .build "Tag" [] .sqlite { timestamps := false } tag_accepted rfl rfl

/-- A schema with a comment line above its table. -/
def headedTags : String := "// tags\nexport const tags = sqliteTable(\"tags\", \x7b\x7d);\n"

theorem merge_replaces_once_iff_headed : (∀ f ∈ keyedTags.fields, f.isEnum = false) ∧
    (tableNames headedTags.toList).count keyedTags.table.name = 1 ∧
    ∃ m, merge (some headedTags) keyedTags.table true = .ok m ∧ m.action = .replaced ∧
      ∃ k, kept (some headedTags) keyedTags.table = .ok k ∧
      (((tableNames m.content.toList).count keyedTags.table.name = 1 ∧
          tableBlock? m.content keyedTags.table.name =
            .ok (some (keyedTags.table.renderBlock ++ "\n"))) ↔
        (tableNames k).count keyedTags.table.name = (if leavesCallOpen k then 1 else 0) ∧
          declaresOther keyedTags.table.name.toList
            (keyedTags.table.renderBlock.toList ++ ['\n']) k = false) := by
  have hscalar : ∀ f ∈ keyedTags.fields, f.isEnum = false := by
    intro f hf
    cases hf
  have honce : (tableNames headedTags.toList).count keyedTags.table.name = 1 := by decide +kernel
  have hrun : (merge (some headedTags) keyedTags.table true).isOk = true := by decide +kernel
  cases hmerge : merge (some headedTags) keyedTags.table true with
  | error e =>
    rw [hmerge] at hrun
    cases hrun
  | ok m => exact ⟨hscalar, honce, m, rfl, merge_replaces_once_iff keyedTags hscalar honce hmerge⟩

/-- A schema whose one table stands on a line between two comments. -/
def framedTags : String := "/* tags */ export const tags = sqliteTable(\"tags\", \x7b\x7d); /* end */\n"

/-- The line is taken for a comment line of the header, so the old table stays. -/
theorem merge_declares_table_twice :
    (tableNames framedTags.toList).count keyedTags.table.name = 1 ∧
      ∃ m, merge (some framedTags) keyedTags.table true = .ok m ∧ m.action = .replaced ∧
        (tableNames m.content.toList).count keyedTags.table.name = 2 := by
  have hrun : (match merge (some framedTags) keyedTags.table true with
      | .ok m => decide (m.action = .replaced ∧
          (tableNames m.content.toList).count keyedTags.table.name = 2)
      | .error _ => false) = true := by decide +kernel
  refine ⟨by decide +kernel, ?_⟩
  split at hrun
  · rename_i m hm
    exact ⟨m, hm, of_decide_eq_true hrun⟩
  · cases hrun

end Schema
end SchemaScaffold
