import SchemaScaffold.Proofs.Schema.Assembly
import SchemaScaffold.Proofs.Table.Lines

/-!
Native enums that a schema declares. A merge puts the enum declarations of its table after what it
keeps, so an enum is declared twice exactly when what is kept declares one of them already. That
happens: the old declaration stays when anything else in the text mentions its variable, and a
comment is enough.
-/

namespace SchemaScaffold

open Source Naming Text

namespace Source

/-- The variable of a native enum that is declared at the start of a line. -/
def enumConstant? (cs : List Char) : Option (List Char) := do
  let (name, cs) ← constant? cs
  let (function, cs) ← word? cs
  let _ ← openCall? cs
  if function == "pgEnum".toList then some name else none

/-- The enum variables that the lines of a text declare, in order. -/
def enumConstants (cs : List Char) : List (List Char) := (lineStarts true cs).filterMap enumConstant?

/-- The enum variables that a source declares outside its comments. -/
def declaredEnums (source : List Char) : List (List Char) := enumConstants (mask source)

theorem enumConstant?_eq_none {cs : List Char} (h : constant? cs = none) : enumConstant? cs = none := by
  simp [enumConstant?, h]

/-- No enum declaration goes on from one text into the next. -/
theorem enumConstant?_exports {a b : List Char} (ha : EndsLine a) (hb : Exports b) (hne : a ≠ []) :
    enumConstant? (a ++ b) = enumConstant? a := by
  simp only [enumConstant?, Option.bind_eq_bind, constant?_exports ha hb hne]
  cases h : constant? a with
  | none => rfl
  | some parts =>
    obtain ⟨name, value⟩ := parts
    have hvalue : EndsLine value := ha.suffix (constant?_suffix h)
    simp only [Option.map_some, Option.bind_some]
    by_cases hempty : value = []
    · obtain ⟨rest, rfl⟩ := hb.cons
      subst hempty
      rfl
    · rw [word?_exports hvalue hempty]
      cases hword : word? value with
      | none => rfl
      | some parts =>
        obtain ⟨-, hrest, -⟩ := word?_eq_some hword
        have hend : EndsLine parts.2 := hvalue.suffix (hrest ▸ List.dropWhile_suffix _)
        simp only [Option.map_some, Option.bind_some, openCall?_exports hend hb]
        cases openCall? parts.2 <;> rfl

theorem enumConstants_append {a b : List Char} (ha : EndsLine a) (hb : Exports b) :
    enumConstants (a ++ b) = enumConstants a ++ enumConstants b := by
  unfold enumConstants
  have hsame : ∀ starts : List (List Char), (∀ x ∈ starts, x <:+ a ∧ x ≠ []) →
      starts.filterMap (enumConstant? ∘ (· ++ b)) = starts.filterMap enumConstant? := by
    intro starts hstarts
    induction starts with
    | nil => rfl
    | cons x starts ih =>
      obtain ⟨hsuffix, hne⟩ := hstarts x (by simp)
      rw [List.filterMap_cons, List.filterMap_cons, Function.comp_apply,
        enumConstant?_exports (ha.suffix hsuffix) hb hne,
        ih fun y hy => hstarts y (List.mem_cons_of_mem _ hy)]
  rw [lineStarts_append ha, Bool.true_or, List.filterMap_append, List.filterMap_map,
    hsame _ fun x hx => lineStarts_suffix hx]

theorem enumConstants_silent {a : List Char} (ha : Silent a) (b : List Char) :
    enumConstants (a ++ b) = enumConstants b := by
  unfold enumConstants
  rw [lineStarts_append ha.endsLine, Bool.true_or, List.filterMap_append, List.filterMap_map]
  have hnone : (lineStarts true a).filterMap (enumConstant? ∘ (· ++ b)) = [] :=
    List.filterMap_eq_nil_iff.mpr fun x hx => enumConstant?_eq_none (ha.none x hx b)
  rw [hnone, List.nil_append]

theorem enumConstants_line {line : List Char} (h : '\n' ∉ line) (b : List Char) :
    enumConstants (line ++ ['\n'] ++ b) =
      (enumConstant? (line ++ ['\n'] ++ b)).toList ++ enumConstants b := by
  unfold enumConstants
  rw [lineStarts_append (endsLine_concat line), Bool.true_or, lineStarts_line h, List.map_singleton,
    List.singleton_append, List.filterMap_cons]
  cases enumConstant? (line ++ ['\n'] ++ b) <;> rfl

end Source

namespace Definition

variable (d : Definition)

/-- The variables of the native enums of a table, in field order. -/
def enumVariables : List (List Char) :=
  (Mapping.nativeEnums d.dialect d.fields).map fun f => (Mapping.enumVariable d.table.name f).toList

/-- The declaration of an enum is put together from plain texts and the literals of its values. -/
theorem piecewise_enumDeclaration {P : List Char → Prop} {f : Field}
    (h : Piecewise P (f.enumValues.getD [])) (hf : f.Accepted) :
    P (Mapping.enumDeclaration d.table.name f) := by
  have hvariable := plain_alphanum (Mapping.enumVariable_chars d.name_chars hf)
  have htype := plain_snake (Mapping.enumTypeName_chars d.name_chars hf)
  have harguments : P (Mapping.enumArguments d.table.name f) :=
    h.append (h.plain (by decide)) (h.append (h.plain htype)
      (h.append (h.plain (by decide)) (h.enumLiteral fun value hvalue => hvalue)))
  have hcall : P ('(' :: (Mapping.enumArguments d.table.name f ++ ");".toList)) :=
    h.append (a := ['(']) (h.plain (by decide)) (h.append harguments (h.plain (by decide)))
  exact h.append (h.plain (by decide)) (h.append (h.plain hvariable)
    (h.append (h.plain (by decide)) (h.append (h.plain (by decide)) hcall)))

theorem newline_not_mem_enumDeclaration {f : Field} (hf : f.Accepted) :
    '\n' ∉ Mapping.enumDeclaration d.table.name f := by
  have hpieces : Piecewise (fun s => '\n' ∉ s) (f.enumValues.getD []) :=
    { append := fun ha hb => by simp [ha, hb]
      plain := not_mem_of_plain (by decide)
      literal := fun value _ => newline_not_mem_jsonLiteral value }
  exact d.piecewise_enumDeclaration hpieces hf

theorem enumVariable_ne_nil (table : String) (f : Field) : (Mapping.enumVariable table f).toList ≠ [] := by
  rw [Mapping.enumVariable, String.toList_append]
  intro h
  exact absurd (List.append_eq_nil_iff.mp h).2 (by decide)

theorem constant?_enumDeclaration {f : Field} (hf : f.Accepted) (rest : List Char) :
    constant? (Mapping.enumDeclaration d.table.name f ++ rest) =
      some ((Mapping.enumVariable d.table.name f).toList,
        "pgEnum".toList ++ '(' :: (Mapping.enumArguments d.table.name f ++ (");".toList ++ rest))) :=
  constant?_statement "pgEnum".toList (Mapping.enumArguments d.table.name f)
    (Mapping.enumVariable_chars d.name_chars hf) (enumVariable_ne_nil _ f) (by rintro c ⟨⟩; decide) rest

/-- An enum declaration declares its variable. -/
theorem enumConstant?_declaration {f : Field} (hf : f.Accepted) (rest : List Char) :
    enumConstant? (Mapping.enumDeclaration d.table.name f ++ rest) =
      some (Mapping.enumVariable d.table.name f).toList := by
  simp only [enumConstant?, Option.bind_eq_bind, d.constant?_enumDeclaration hf, Option.bind_some]
  rfl

/-- The first line of a table block declares no enum. -/
theorem enumConstant?_block (rest : List Char) :
    enumConstant? (d.table.renderBlock.toList ++ rest) = none := by
  rw [d.renderBlock_eq]
  by_cases hne : d.table.exportName.toList = []
  · apply enumConstant?_eq_none
    rw [statement_append, hne]
    exact constant?_unnamed _
  · have hconstant := constant?_statement d.table.function.toList d.table.arguments
      d.exportName_chars hne (fun c hc => not_isBlank_of_isAlphanum (d.function_alphanum c (List.mem_of_head? hc))) rest
    have hword : word? (d.table.function.toList ++ '(' :: (d.table.arguments ++
        (");".toList ++ rest))) = some (d.table.function.toList, '(' :: (d.table.arguments ++
          (");".toList ++ rest))) :=
      word?_name (fun c hc => isWordChar_of_isAlphanum (d.function_alphanum c hc)) d.function_ne_nil
        (by rintro c ⟨⟩; decide)
    have hother : (d.table.function.toList == "pgEnum".toList) = false := by
      rw [d.function_eq]
      cases d.dialect <;> decide
    simp only [enumConstant?, Option.bind_eq_bind, hconstant, Option.bind_some, hword, hother]
    rfl

/-- A table declares its native enums, one after the other. -/
theorem enumConstants_render :
    enumConstants (d.table.render.toList ++ ['\n']) = d.enumVariables := by
  have hblock : enumConstants (d.table.renderBlock.toList ++ ['\n']) = [] := by
    have hread := d.enumConstant?_block ['\n']
    rw [d.block_eq] at hread ⊢
    rw [enumConstants_line d.newline_not_mem_firstLine, hread, ← List.append_nil d.closing,
      enumConstants_silent d.silent_closing]
    rfl
  have hlines : ∀ fields : List Field, (∀ f ∈ fields, f.Accepted) → ∀ rest,
      enumConstants (fields.flatMap (fun f => Mapping.enumDeclaration d.table.name f ++ ['\n']) ++ rest) =
        (fields.map fun f => (Mapping.enumVariable d.table.name f).toList) ++ enumConstants rest := by
    intro fields hfields rest
    induction fields with
    | nil => rfl
    | cons f fields ih =>
      have hf := hfields f (by simp)
      rw [List.flatMap_cons, List.append_assoc,
        enumConstants_line (d.newline_not_mem_enumDeclaration hf), List.append_assoc _ ['\n'],
        d.enumConstant?_declaration hf, ih fun g hg => hfields g (List.mem_cons_of_mem _ hg)]
      rfl
  rw [d.table.render_toList, List.append_assoc, d.preamble_eq]
  unfold enumVariables
  split
  · rename_i hnone
    rw [hnone, List.nil_append, hblock]
    rfl
  · rw [List.append_assoc, hlines _ fun f hf => d.nativeEnum_accepted hf,
      enumConstants_silent silent_break, hblock, List.append_nil]

theorem exports_render : Exports (d.table.render.toList ++ ['\n']) := by
  rw [d.table.render_toList, d.preamble_eq, d.renderBlock_eq]
  split
  · exact (exports_statement _ _ _).append _
  · rename_i hsome
    obtain ⟨f, fields, hfields⟩ := List.exists_cons_of_ne_nil hsome
    rw [hfields, List.flatMap_cons]
    exact ((((exports_statement _ _ _).append _).append _).append _ |>.append _).append _

end Definition

namespace Schema

/-- After a merge that writes the table, no enum is declared twice exactly when what is kept before
the table declares none twice, and none of the table's own. Between the two there must be a seam: no
backtick literal or comment left open in what is kept that an enum value closes. -/
theorem merge_enums_nodup_iff (d : Definition) (hdistinct : d.enumVariables.Nodup)
    {existing : Option String} {force : Bool} {m : Merge}
    (h : merge existing d.table force = .ok m) (haction : m.action ≠ .skipped) {k : List Char}
    (hk : kept existing d.table = .ok k) (hseam : Seam k (d.table.render.toList ++ ['\n'])) :
    (declaredEnums m.content.toList).Nodup ↔
      (declaredEnums k).Nodup ∧ ∀ v ∈ d.enumVariables, v ∉ declaredEnums k := by
  have hcontent : m.content.toList = k ++ (d.table.render.toList ++ ['\n']) := by
    rcases merge_cases h with ⟨-, -, -, rfl⟩ | ⟨-, k', hk', hcontent⟩
    · exact absurd rfl haction
    · rw [hk] at hk'
      rw [hcontent, Except.ok.inj hk']
  have hdeclared : declaredEnums m.content.toList = declaredEnums k ++ d.enumVariables := by
    rw [hcontent, declaredEnums, mask_append hseam, mask_inline_self d.inline_render,
      enumConstants_append hseam.endsLine.mask d.exports_render, d.enumConstants_render]
    rfl
  rw [hdeclared, List.nodup_append]
  constructor
  · rintro ⟨hnodup, -, hdisjoint⟩
    exact ⟨hnodup, fun v hv hmem => hdisjoint v hmem v hv rfl⟩
  · rintro ⟨hnodup, hdisjoint⟩
    exact ⟨hnodup, hdistinct, fun v hv w hw he => hdisjoint w hw (he ▸ hv)⟩

/-- A table with a native enum. -/
def kindTags : Definition :=
  .build "Tag" ["kind:enum:a,b"] .postgresql { timestamps := false } rfl rfl rfl

theorem kindTags_distinct : kindTags.enumVariables.Nodup :=
  List.nodup_cons.mpr ⟨List.not_mem_nil, List.nodup_nil⟩

theorem merge_enums_nodup_iff_fresh :
    kindTags.enumVariables.Nodup ∧
    merge none kindTags.table false = .ok { content := fresh kindTags.table, action := .created } ∧
    kept none kindTags.table = .ok (kindTags.table.requiredImports.render.toList ++ ['\n', '\n']) ∧
    Seam (kindTags.table.requiredImports.render.toList ++ ['\n', '\n'])
      (kindTags.table.render.toList ++ ['\n']) ∧
    ((declaredEnums (fresh kindTags.table).toList).Nodup ↔
      (declaredEnums (kindTags.table.requiredImports.render.toList ++ ['\n', '\n'])).Nodup ∧
        ∀ v ∈ kindTags.enumVariables,
          v ∉ declaredEnums (kindTags.table.requiredImports.render.toList ++ ['\n', '\n'])) := by
  have hmerge : merge none kindTags.table false =
      .ok { content := fresh kindTags.table, action := .created } := rfl
  have hseam : Seam (kindTags.table.requiredImports.render.toList ++ ['\n', '\n'])
      (kindTags.table.render.toList ++ ['\n']) :=
    { endsLine := by
        rw [List.append_cons]
        exact endsLine_concat _
      backtick := fun h => absurd h (by decide +kernel)
      comment := fun h => absurd h (by decide +kernel) }
  exact ⟨kindTags_distinct, hmerge, rfl, hseam,
    merge_enums_nodup_iff kindTags kindTags_distinct hmerge (by simp) rfl hseam⟩

/-- A schema that says in a comment where an enum is used. -/
def mirroredTags : String :=
  "export const tagsKindEnum = pgEnum(\"tags_kind\", [\"a\"]);\n" ++
  "export const tags = pgTable(\"tags\", \x7b\n  kind: tagsKindEnum(\"kind\"),\n\x7d);\n" ++
  "// tagsKindEnum is mirrored in the app\n"

/-- The comment keeps the old declaration, so the enum ends up declared twice. -/
theorem merge_declares_enum_twice :
    (declaredEnums mirroredTags.toList).Nodup ∧ kindTags.enumVariables.Nodup ∧
      ∃ m, merge (some mirroredTags) kindTags.table true = .ok m ∧ m.action = .replaced ∧
        ¬ (declaredEnums m.content.toList).Nodup := by
  have hrun : (match merge (some mirroredTags) kindTags.table true with
      | .ok m => decide (m.action = .replaced ∧ ¬ (declaredEnums m.content.toList).Nodup)
      | .error _ => false) = true := by decide +kernel
  refine ⟨by decide +kernel, kindTags_distinct, ?_⟩
  split at hrun
  · rename_i m hm
    exact ⟨m, hm, of_decide_eq_true hrun⟩
  · cases hrun

end Schema
end SchemaScaffold
