import SchemaScaffold.Proofs.Table.Entry

/-!
What an entry of a schema uses. Its preamble names the variables of its native enums and calls the
function that makes them; its block calls the builders of its columns, among them those variables. So
an enum variable is named by one entry only, and a block tells which enums belong to it.
-/

namespace SchemaScaffold

open Source Naming Text

/-- A search for words that end in `Enum`. -/
def SeeksEnums (mark : Use → Bool) : Prop := ∀ u, mark u = true → "Enum".toList <:+ u.1

theorem SeeksEnums.search {mark : Use → Bool} (h : SeeksEnums mark) : Search mark where
  called w hw := .inr (h (w, true) hw)
  named w hw := h (w, false) hw

/-- The variable of an enum: its name is provided by no module. -/
structure EnumName (v : List Char) : Prop where
  ends : "Enum".toList <:+ v
  chars : ∀ c ∈ v, isWordChar c = true
  foreign : ∀ dialect, ∀ s ∈ Mapping.moduleSymbols dialect, s.toList ≠ v

theorem EnumName.seeks {v : List Char} (hv : EnumName v) : SeeksEnums (·.1 == v) := fun u hu => by
  rw [beq_iff_eq.mp hu]
  exact hv.ends

/-- What the names of a run ask of a definition: its table has a name, its fields have different
names, and nothing in it could be taken for a table function or an enum. -/
structure Definition.Admissible (d : Definition) : Prop where
  named : d.table.name ≠ ""
  distinct : (d.fields.map (·.name)).Nodup
  fieldNames : ∀ f ∈ d.fields, occursIn "Enum" f.name = false
  values : ∀ f ∈ d.fields, ∀ value ∈ f.enumValues.getD [],
    occursIn "Table" value = false ∧ occursIn "Enum" value = false

/-- A word that names an enum. -/
def isEnumWord (w : List Char) : Bool := endsInEnum w && 4 < w.length

theorem Source.enumVariables_eq (block : List Char) : Source.enumVariables block =
    (((uses block).filter fun u => u.2 && isEnumWord u.1).map (·.1)).eraseDups := by
  unfold Source.enumVariables uses
  congr 1
  induction words block with
  | nil => rfl
  | cons w ws ih =>
    obtain ⟨word, after⟩ := w
    rw [List.map_cons]
    by_cases hcalled : (isEnumWord word && (openCall? after).isSome) = true
    · rw [List.filterMap_cons_some (by exact if_pos hcalled), List.filter_cons_of_pos, List.map_cons, ih]
      rwa [Bool.and_comm]
    · rw [List.filterMap_cons_none (by exact if_neg hcalled), List.filter_cons_of_neg, ih]
      rwa [Bool.and_comm]

theorem eraseDups_of_nodup {α : Type} [BEq α] [LawfulBEq α] {as : List α} (h : as.Nodup) :
    as.eraseDups = as := by
  induction as with
  | nil => rfl
  | cons a as ih =>
    obtain ⟨ha, has⟩ := List.nodup_cons.mp h
    have hkept : as.filter (fun b => !b == a) = as := List.filter_eq_self.mpr fun b hb => by
      simpa using fun he : b = a => ha (he ▸ hb)
    rw [List.eraseDups_cons, hkept, ih has]

/-- An exported constant and the call that makes it. -/
theorem Search.opening {mark : Use → Bool} (hmark : Search mark) {name function : List Char}
    (hname : ∀ c ∈ name, isWordChar c = true) (hne : name ≠ [])
    (hfunction : ∀ c ∈ function, isWordChar c = true) (hne' : function ≠ []) :
    Passage mark ("export const ".toList ++ (name ++ (" = ".toList ++ (function ++ ['(']))))
      ([(name, false), (function, true)].filter mark) := by
  have hexport : follow .between "export const ".toList =
      ([("export".toList, false)], .past "const".toList) := by decide +kernel
  have hconst : follow (.past "const".toList) name = ([("const".toList, false)], .within name) := by
    obtain ⟨c, name, rfl⟩ := List.exists_cons_of_ne_nil hne
    have hc : isWordChar c = true := hname c (by simp)
    simp [follow, Place.step, hc, follow_word fun d hd => hname d (List.mem_cons_of_mem _ hd)]
  have hequals : follow (.within name) " = ".toList = ([(name, false)], .between) := rfl
  have hcall : follow .between (function ++ ['(']) = ([(function, true)], .between) := by
    rw [follow_append, follow_name hfunction hne']
    rfl
  have hread : follow .between ("export const ".toList ++ (name ++ (" = ".toList ++
      (function ++ ['('])))) = ([("export".toList, false), ("const".toList, false), (name, false),
        (function, true)], .between) := by
    rw [follow_append, hexport, follow_append, hconst, follow_append, hequals, hcall]
    rfl
  have hwords : ∀ w, ¬ "Enum".toList <:+ w → ¬ mark (w, false) = true := fun w hw hfound =>
    hw (hmark.named w hfound)
  refine ⟨?_, by rw [hread]⟩
  rw [hread, List.filter_cons_of_neg (hwords _ (by decide)),
    List.filter_cons_of_neg (hwords _ (by decide))]

namespace Definition

variable {d : Definition} (h : d.Admissible)

include h

/-- The fields of an admissible definition bring no word along that is looked for. -/
theorem Admissible.unmarked {mark : Use → Bool} (hmark : Search mark) :
    ∀ f ∈ d.fields, f.Unmarked mark := by
  intro f hf
  have hnamed : ∀ w, ¬ "Enum".toList <:+ w → mark (w, false) = false := fun w hw =>
    Bool.eq_false_iff.mpr fun hfound => hw (hmark.named w hfound)
  refine ⟨fun w hw => hnamed w fun hends => ?_, fun href => hnamed _ (d.target_last hf href).not_enum,
    fun value hvalue => ?_⟩
  · rcases List.infix_concat_iff.mp (hends.isInfix.trans hw) with ⟨front, hfront⟩ | hin
    · have hlast := congrArg List.getLast? hfront
      simp at hlast
    · exact occursIn_eq_false.mp (h.fieldNames f hf) hin
  · obtain ⟨htable, henum⟩ := h.values f hf value hvalue
    exact ⟨occursIn_eq_false.mp htable, occursIn_eq_false.mp henum⟩

/-- The declaration of a native enum names its variable and calls its builder. -/
theorem Admissible.passage_enumLine {mark : Use → Bool} (hmark : Search mark) {f : Field}
    (hf : f ∈ d.fields) :
    Passage mark (Mapping.enumDeclaration d.table.name f ++ ['\n'])
      ([((Mapping.enumVariable d.table.name f).toList, false), ("pgEnum".toList, true)].filter mark) := by
  have haccepted := d.field_accepted hf
  have hvalues := (h.unmarked hmark f hf).values
  have hopening := hmark.opening
    (fun c hc => isWordChar_of_isAlphanum (Mapping.enumVariable_chars d.name_chars haccepted c hc))
    (enumVariable_ne_nil d.table.name f)
    (List.all_eq_true.mp (by decide) : ∀ c ∈ "pgEnum".toList, isWordChar c = true) (by decide)
  have hname : Passage mark ((Mapping.enumTypeName d.table.name (snakeCase f.name)).toList ++ ['"']) [] :=
    hmark.snake (Mapping.enumTypeName_chars d.name_chars haccepted)
  have hparts : Mapping.enumDeclaration d.table.name f ++ ['\n'] =
      "export const ".toList ++ ((Mapping.enumVariable d.table.name f).toList ++ (" = ".toList ++
        ("pgEnum".toList ++ ['(']))) ++ (['"'] ++
          (((Mapping.enumTypeName d.table.name (snakeCase f.name)).toList ++ ['"']) ++ (", ".toList ++
            ((enumLiteral (f.enumValues.getD [])).toList ++ ");\n".toList)))) := by
    have hquote : "\"".toList = ['"'] ∧ "\", ".toList = '"' :: ", ".toList ∧
        ");\n".toList = ");".toList ++ ['\n'] := by decide
    unfold Mapping.enumDeclaration Mapping.enumArguments
    rw [statement_append]
    simp only [hquote, List.append_assoc, List.cons_append, List.nil_append, -String.reduceToList]
  rw [hparts]
  exact hopening.append_quiet ((hmark.passage (by decide)).append_nil (hname.append_nil
    ((hmark.passage (by decide)).append_nil ((hmark.enumLiteral hvalues).append_nil
      (hmark.passage (by decide))))))

theorem Admissible.passage_enumLines {mark : Use → Bool} (hmark : Search mark) {fields : List Field}
    (hfields : ∀ f ∈ fields, f ∈ d.fields) :
    Passage mark (fields.flatMap fun f => Mapping.enumDeclaration d.table.name f ++ ['\n'])
      (fields.flatMap fun f =>
        [((Mapping.enumVariable d.table.name f).toList, false), ("pgEnum".toList, true)].filter mark) :=
  Passage.flatMap fun f hf => h.passage_enumLine hmark (hfields f hf)

theorem Admissible.passage_preamble {mark : Use → Bool} (hmark : Search mark) :
    Passage mark d.table.preamble ((Mapping.nativeEnums d.dialect d.fields).flatMap fun f =>
      [((Mapping.enumVariable d.table.name f).toList, false), ("pgEnum".toList, true)].filter mark) := by
  rw [d.preamble_eq]
  split
  · rename_i hnone
    rw [hnone]
    exact .nil _
  · exact (h.passage_enumLines hmark fun f hf => (List.mem_filter.mp hf).1).append_quiet
      (hmark.passage (by decide))

/-- The block calls the builders of its columns and names nothing else that ends in `Enum`. -/
theorem Admissible.passage_block {mark : Use → Bool} (hmark : SeeksEnums mark) :
    Passage mark (d.table.renderBlock.toList ++ ['\n']) (d.fields.flatMap fun f =>
      [(Mapping.caller d.dialect d.table.name f, true)].filter mark) := by
  have hopening := hmark.search.opening
    (fun c hc => isWordChar_of_isAlphanum (d.exportName_chars c hc)) (d.exportName_ne_nil h.named)
    (fun c hc => isWordChar_of_isAlphanum (d.function_alphanum c hc)) d.function_ne_nil
  have hfunction : ¬ "Enum".toList <:+ d.table.function.toList := by
    rw [d.function_eq]
    cases d.dialect <;> decide
  rw [List.filter_cons_of_neg fun hfound => d.exportName_last.not_enum (hmark _ hfound),
    List.filter_cons_of_neg fun hfound => hfunction (hmark _ hfound), List.filter_nil] at hopening
  have hclosing := d.passage_closing hmark.search (h.unmarked hmark.search)
  have hname : Passage mark (d.table.name.toList ++ ['"']) [] := hmark.search.snake d.name_chars
  have hparts : d.table.renderBlock.toList ++ ['\n'] = d.opening ++ (['"'] ++
      ((d.table.name.toList ++ ['"']) ++ (", \x7b\n".toList ++ d.closing))) := by
    rw [d.block_parts, remainder]
    simp only [List.append_assoc, List.cons_append, List.nil_append]
  rw [hparts]
  exact hopening.append_nil ((hmark.search.passage (by decide)).append_nil (hname.append_nil
    ((hmark.search.passage (by decide)).append_nil hclosing)))

/-- What an entry uses: the variables and builders of its enum declarations, then what its columns
call. -/
theorem Admissible.passage_entry {mark : Use → Bool} (hmark : SeeksEnums mark) :
    Passage mark d.entry ((Mapping.nativeEnums d.dialect d.fields).flatMap (fun f =>
        [((Mapping.enumVariable d.table.name f).toList, false), ("pgEnum".toList, true)].filter mark) ++
      d.fields.flatMap fun f => [(Mapping.caller d.dialect d.table.name f, true)].filter mark) := by
  rw [d.entry_eq]
  exact (hmark.search.passage (by decide)).append_nil
    ((h.passage_preamble hmark.search).append (h.passage_block hmark))

omit h

/-- A column calls a variable of its table, or a builder of its module. -/
theorem caller_cases {f : Field} (hf : f ∈ d.fields) :
    (f ∈ Mapping.nativeEnums d.dialect d.fields ∧
      Mapping.caller d.dialect d.table.name f = (Mapping.enumVariable d.table.name f).toList) ∨
    ∃ s ∈ Mapping.moduleSymbols d.dialect, Mapping.caller d.dialect d.table.name f = s.toList := by
  unfold Mapping.caller
  by_cases hnative : (Mapping.standardType d.dialect f.type).nativeEnum = true
  · exact .inl ⟨List.mem_filter.mpr ⟨hf, hnative⟩, if_pos hnative⟩
  · refine .inr ⟨(Mapping.standardType d.dialect f.type).builder, ?_, if_neg hnative⟩
    simp only [Mapping.moduleSymbols, List.cons_append, List.mem_cons, List.mem_append]
    exact .inr (.inl (.inr (List.mem_map_of_mem (FieldType.mem_all f.type))))

theorem mem_enumVariables {v : List Char} : v ∈ d.enumVariables ↔
    ∃ f ∈ Mapping.nativeEnums d.dialect d.fields, (Mapping.enumVariable d.table.name f).toList = v :=
  List.mem_map

theorem nativeEnum_builder {f : Field} (hf : f ∈ Mapping.nativeEnums d.dialect d.fields) :
    "pgEnum" ∈ Mapping.moduleSymbols d.dialect := by
  obtain ⟨hdialect, -⟩ := (Mapping.standardType_nativeEnum _ _).mp (List.mem_filter.mp hf).2
  rw [hdialect]
  decide

include h

theorem Admissible.enumName {v : List Char} (hv : v ∈ d.enumVariables) : EnumName v := by
  obtain ⟨f, hf, rfl⟩ := mem_enumVariables.mp hv
  refine ⟨enumVariable_ends _ f, fun c hc => ?_, fun dialect s hs he => ?_⟩
  · exact isWordChar_of_isAlphanum
      (Mapping.enumVariable_chars d.name_chars (d.nativeEnum_accepted hf) c hc)
  · refine d.enumVariable_not_symbol h.named (List.mem_filter.mp hf).1 dialect ?_
    rwa [← String.toList_injective he]

omit h in
theorem declared_foreign {v : List Char} (hv : EnumName v) {fields : List Field}
    (hfields : ∀ f ∈ fields, f ∈ Mapping.nativeEnums d.dialect d.fields ∧
      (Mapping.enumVariable d.table.name f).toList ≠ v) : (fields.flatMap fun f =>
        [((Mapping.enumVariable d.table.name f).toList, false), ("pgEnum".toList, true)].filter
          (·.1 == v)) = [] := by
  refine List.flatMap_eq_nil_iff.mpr fun f hf => ?_
  obtain ⟨hnative, hne⟩ := hfields f hf
  have hbuilder := hv.foreign _ _ (nativeEnum_builder hnative)
  rw [List.filter_cons_of_neg (by simpa using hne), List.filter_cons_of_neg (by simpa using hbuilder)]
  rfl

/-- The declarations of other enums do not name a variable. -/
theorem Admissible.passage_others {v : List Char} (hv : EnumName v) {fields : List Field}
    (hfields : ∀ f ∈ fields, f ∈ Mapping.nativeEnums d.dialect d.fields ∧
      (Mapping.enumVariable d.table.name f).toList ≠ v) :
    Passage (·.1 == v) (fields.flatMap fun f => Mapping.enumDeclaration d.table.name f ++ ['\n']) [] := by
  have hlines := h.passage_enumLines hv.seeks.search fun f hf => (List.mem_filter.mp (hfields f hf).1).1
  rwa [declared_foreign hv hfields] at hlines

/-- The variable of another enum is not named in an entry. -/
theorem Admissible.passage_foreign {v : List Char} (hv : EnumName v) (hown : v ∉ d.enumVariables) :
    Passage (·.1 == v) d.entry [] := by
  have hentry := h.passage_entry hv.seeks
  have hdeclared := declared_foreign (d := d) hv fun f hf =>
    ⟨hf, fun he => hown (mem_enumVariables.mpr ⟨f, hf, he⟩)⟩
  have hcalled : (d.fields.flatMap fun f =>
      [((Mapping.caller d.dialect d.table.name f, true) : Use)].filter (·.1 == v)) = [] := by
    refine List.flatMap_eq_nil_iff.mpr fun f hf => ?_
    have hne : Mapping.caller d.dialect d.table.name f ≠ v := fun he => by
      rcases caller_cases hf with ⟨hnative, hcaller⟩ | ⟨s, hs, hcaller⟩
      · exact hown (mem_enumVariables.mpr ⟨f, hnative, hcaller.symm.trans he⟩)
      · exact hv.foreign _ s hs (hcaller.symm.trans he)
    simp [hne]
  rwa [hdeclared, hcalled] at hentry

/-- An entry names each of its variables once, in the declaration. -/
theorem Admissible.passage_own (hdistinct : d.enumVariables.Nodup) {v : List Char}
    (hv : v ∈ d.enumVariables) : Passage (· == (v, false)) d.entry [(v, false)] := by
  have hseeks : SeeksEnums (· == (v, false)) := fun u hu => by
    rw [beq_iff_eq.mp hu]
    exact (h.enumName hv).ends
  have hentry := h.passage_entry hseeks
  have hdeclared : ((Mapping.nativeEnums d.dialect d.fields).flatMap fun f =>
      [((Mapping.enumVariable d.table.name f).toList, false), ("pgEnum".toList, true)].filter
        (· == (v, false))) = [(v, false)] := by
    have hone : ∀ f : Field, [((Mapping.enumVariable d.table.name f).toList, false),
        ("pgEnum".toList, true)].filter (· == (v, false)) =
          ([(Mapping.enumVariable d.table.name f).toList].filter (· == v)).map (·, false) := by
      intro f
      by_cases he : (Mapping.enumVariable d.table.name f).toList = v <;> simp [he]
    have hall : d.enumVariables.filter (· == v) = [v] := by
      rw [List.filter_beq, List.Nodup.count hdistinct, if_pos hv]
      rfl
    calc _ = (d.enumVariables.filter (· == v)).map (·, false) := by
          unfold enumVariables
          generalize Mapping.nativeEnums d.dialect d.fields = fields
          induction fields with
          | nil => rfl
          | cons f fields ih =>
            rw [List.flatMap_cons, hone, ih, List.map_cons, ← List.map_append, ← List.filter_append]
            rfl
      _ = [(v, false)] := by rw [hall]; rfl
  have hcalled : (d.fields.flatMap fun f =>
      [((Mapping.caller d.dialect d.table.name f, true) : Use)].filter (· == (v, false))) = [] :=
    List.flatMap_eq_nil_iff.mpr fun f _ => by simp
  rwa [hdeclared, hcalled] at hentry

/-- The enums that a block calls. -/
theorem Admissible.enumVariables_called :
    Source.enumVariables (d.table.renderBlock.toList ++ ['\n']) =
      ((d.fields.map (Mapping.caller d.dialect d.table.name)).filter isEnumWord).eraseDups := by
  have hseeks : SeeksEnums fun u => u.2 && isEnumWord u.1 := fun u hu => by
    simp only [isEnumWord, endsInEnum, Bool.and_eq_true, List.isSuffixOf_iff_suffix] at hu
    exact hu.2.1
  have hone : ∀ w : List Char, [((w, true) : Use)].filter (fun u => u.2 && isEnumWord u.1) =
      ([w].filter isEnumWord).map (·, true) := by
    intro w
    cases hw : isEnumWord w <;> simp [hw]
  have hall : ∀ fields : List Field, (fields.flatMap fun f =>
      [((Mapping.caller d.dialect d.table.name f, true) : Use)].filter fun u => u.2 && isEnumWord u.1) =
        ((fields.map (Mapping.caller d.dialect d.table.name)).filter isEnumWord).map (·, true) := by
    intro fields
    induction fields with
    | nil => rfl
    | cons f fields ih =>
      rw [List.flatMap_cons, hone, ih, List.map_cons, ← List.map_append, ← List.filter_append]
      rfl
  rw [Source.enumVariables_eq, (h.passage_block hseeks).uses, hall, List.map_map]
  exact congrArg List.eraseDups (List.map_id _)

/-- A table with native enums calls its own variables. -/
theorem Admissible.enumVariables_native (hdistinct : d.enumVariables.Nodup)
    (hdialect : d.dialect = .postgresql) :
    Source.enumVariables (d.table.renderBlock.toList ++ ['\n']) = d.enumVariables := by
  have hbuilders : ∀ type : FieldType,
      (Mapping.standardType .postgresql type).nativeEnum = false →
        isEnumWord (Mapping.standardType .postgresql type).builder.toList = false := by
    intro type
    cases type <;> decide
  have hkept : ∀ f ∈ d.fields, isEnumWord (Mapping.caller d.dialect d.table.name f) =
      (Mapping.standardType d.dialect f.type).nativeEnum := by
    intro f hf
    unfold Mapping.caller
    cases hnative : (Mapping.standardType d.dialect f.type).nativeEnum with
    | false =>
      rw [hdialect] at hnative
      rw [if_neg (by decide), hdialect]
      exact hbuilders f.type hnative
    | true =>
      obtain ⟨c, hc, -⟩ := Mapping.enumVariable_capital d.plural_chars (d.name_eq ▸ h.named)
        (d.field_accepted hf)
      have hlength := List.length_pos_of_mem hc
      rw [if_pos rfl, isEnumWord, endsInEnum, Bool.and_eq_true, List.isSuffixOf_iff_suffix]
      refine ⟨enumVariable_ends _ f, ?_⟩
      rw [d.name_eq, Mapping.enumVariable, String.toList_append, List.length_append, decide_eq_true_eq]
      have hfour : "Enum".toList.length = 4 := rfl
      omega
  have hcallers : (d.fields.map (Mapping.caller d.dialect d.table.name)).filter isEnumWord =
      d.enumVariables := by
    have hnative : d.fields.filter (isEnumWord ∘ Mapping.caller d.dialect d.table.name) =
        Mapping.nativeEnums d.dialect d.fields := List.filter_congr hkept
    rw [List.filter_map, hnative, enumVariables]
    refine List.map_congr_left fun f hf => ?_
    rw [Mapping.caller, if_pos (List.mem_filter.mp hf).2]
  rw [h.enumVariables_called, hcallers, eraseDups_of_nodup hdistinct]

/-- Another table calls builders of its module only. -/
theorem Admissible.enumVariables_builders (hdialect : d.dialect ≠ .postgresql) :
    ∀ v ∈ Source.enumVariables (d.table.renderBlock.toList ++ ['\n']),
      ∃ s ∈ Mapping.moduleSymbols d.dialect, v = s.toList := by
  intro v hv
  rw [h.enumVariables_called, List.mem_eraseDups, List.mem_filter] at hv
  obtain ⟨f, hf, rfl⟩ := List.mem_map.mp hv.1
  refine (caller_cases hf).resolve_left fun hnative => hdialect ?_
  exact ((Mapping.standardType_nativeEnum _ _).mp (List.mem_filter.mp hnative.1).2).1

/-! ## Table calls -/

/-- Up to its block an entry calls no table function. -/
theorem Admissible.passage_front : Passage callsTableFunction ('\n' :: d.table.preamble) [] := by
  have hpreamble := h.passage_preamble Search.tableFunctions
  have hnone : ((Mapping.nativeEnums d.dialect d.fields).flatMap fun f =>
      [((Mapping.enumVariable d.table.name f).toList, false), ("pgEnum".toList, true)].filter
        callsTableFunction) = [] :=
    List.flatMap_eq_nil_iff.mpr fun f _ => by
      rw [List.filter_cons_of_neg (by simp [callsTableFunction])]
      decide
  rw [hnone] at hpreamble
  exact Follows.append_nil (a := ['\n']) (Search.tableFunctions.passage (by decide)) hpreamble

omit h in
theorem entry_append (rest : List Char) : d.entry ++ rest =
    ('\n' :: d.table.preamble) ++ (d.table.renderBlock.toList ++ ['\n'] ++ rest) := by
  rw [d.entry_eq]
  simp only [List.append_assoc, List.cons_append, List.nil_append]

/-- An entry reports its table. -/
theorem Admissible.callNames_entry (rest : List Char) :
    callNames (d.entry ++ rest) = d.table.name.toList :: callNames rest := by
  rw [entry_append, callNames_passage h.passage_front,
    d.callNames_block (h.unmarked Search.tableFunctions) h.named]

/-- An entry is where its table exists, and no other does. -/
theorem Admissible.anywhere_entry {name : List Char} (hname : ∀ c ∈ name, isQuote c = false)
    (rest : List Char) : anywhere (callsTable name) (d.entry ++ rest) =
      (name == d.table.name.toList || anywhere (callsTable name) rest) := by
  have hsnake : Passage callsTableFunction (d.table.name.toList ++ ['"']) [] :=
    Search.tableFunctions.snake d.name_chars
  have hafter : Passage callsTableFunction
      ("(\"".toList ++ ((d.table.name.toList ++ ['"']) ++ d.remainder)) [] :=
    (Search.tableFunctions.passage (by decide)).append_nil
      (hsnake.append_nil (d.passage_remainder (h.unmarked Search.tableFunctions)))
  have hparts : '(' :: '"' :: (d.table.name.toList ++ '"' :: (d.remainder ++ rest)) =
      "(\"".toList ++ ((d.table.name.toList ++ ['"']) ++ d.remainder) ++ rest := by
    have hopen : "(\"".toList = ['(', '"'] := by decide
    simp only [hopen, List.append_assoc, List.cons_append, List.nil_append, -String.reduceToList]
  rw [entry_append, anywhere_passage h.passage_front, d.block_call, anywhere_passage d.passage_lead,
    anywhere_call d.function_mem d.name_quotes hname, hparts, anywhere_passage hafter]

end Definition
end SchemaScaffold
