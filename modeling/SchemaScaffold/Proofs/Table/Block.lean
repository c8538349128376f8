import SchemaScaffold.Proofs.Source.Calls
import SchemaScaffold.Proofs.Table.Words

/-!
Finding the block of a table again. Its first line holds the one call that names the table, and
bracket matching leads from the parenthesis of that call to the end of the block. So wherever the
declaration is found, the block is cut out as it was written.
-/

namespace SchemaScaffold

open Source Naming Text

namespace Source

theorem namedArgument?_name (name rest : List Char) :
    namedArgument? name ('(' :: '"' :: (name ++ '"' :: rest)) = some rest := by
  have hopen : openCall? ('(' :: '"' :: (name ++ '"' :: rest)) = some ('"' :: (name ++ '"' :: rest)) :=
    rfl
  have hquote : skipBlanks ('"' :: (name ++ '"' :: rest)) = '"' :: (name ++ '"' :: rest) := rfl
  simp only [namedArgument?, hopen, Option.bind_eq_bind, Option.bind_some, hquote, quote?]
  rw [show isQuote '"' = true from rfl, if_pos rfl, Option.bind_some, dropText?_append,
    Option.bind_some]
  simp [show isQuote '"' = true from rfl]

theorem tableCall?_name {function name : List Char}
    (hfunction : function ∈ tableFunctions.map String.toList) (hname : ∀ c ∈ name, isQuote c = false)
    (hne : name ≠ []) (rest : List Char) :
    tableCall? (function ++ '(' :: '"' :: (name ++ '"' :: rest)) = some (name, rest) := by
  have hopen : openCall? ('(' :: '"' :: (name ++ '"' :: rest)) = some ('"' :: (name ++ '"' :: rest)) :=
    rfl
  have hquote : skipBlanks ('"' :: (name ++ '"' :: rest)) = '"' :: (name ++ '"' :: rest) := rfl
  simp only [tableCall?, Option.bind_eq_bind, tableFunction?_function hfunction, Option.bind_some,
    hopen, hquote]
  exact quoted?_of_quotes (by decide) (by decide) hname hne rest

/-- Where a declaration is found, its block is what bracket matching gives. -/
theorem tableBlock?_found {source name rest : List Char} {start : Nat}
    (hexists : tableExists source name = true)
    (hfound : atLineStart? (tableDeclaration? name) true (mask source) = some (start, rest)) :
    tableBlock? source name = (blockEnd source (source.length - rest.length)).map fun stop =>
      some ((source.drop start).take (stop - start)) := by
  simp only [tableBlock?, locateTable, hexists, Bool.not_true, Bool.false_eq_true, if_false,
    declarationSpan, hfound, mask_length]
  cases blockEnd source (source.length - rest.length) <;> rfl

/-- The block of a statement ends behind its line break. -/
theorem blockEnd_call {arguments : List Char} (h : Inline arguments) {front rest source : List Char}
    (hsource : source = front ++ '(' :: (arguments ++ (");".toList ++ '\n' :: rest))) :
    blockEnd source front.length = .ok (source.length - rest.length) := by
  have hend : ");".toList ++ '\n' :: rest = ')' :: (';' :: '\n' :: rest) := rfl
  have hskip : skipTerminator (';' :: '\n' :: rest) = rest := rfl
  rw [blockEnd, hsource, List.drop_left, afterBlock, hend, closeBlock_inline h, Except.map, hskip]
  rfl

/-- The span of a statement on its lines. -/
theorem Span.cut_statement (front statement rest : List Char) :
    Span.cut ⟨front.length, front.length + (statement ++ ['\n']).length⟩
      (front ++ (statement ++ '\n' :: rest)) = statement ++ ['\n'] := by
  rw [Span.cut, List.drop_left, Nat.add_sub_cancel_left, List.append_cons statement '\n' rest,
    List.take_left]

theorem Span.remove_statement (front statement rest : List Char) :
    Span.remove ⟨front.length, front.length + (statement ++ ['\n']).length⟩
      (front ++ (statement ++ '\n' :: rest)) = front ++ rest := by
  rw [Span.remove, List.take_left, List.append_cons statement '\n' rest, ← List.append_assoc,
    ← List.length_append, List.drop_left]

/-- Where a statement is found, its span goes from the start of its line to the end of its last. -/
theorem declarationSpan_statement {name function arguments : List Char} (h : Inline arguments)
    (front rest : List Char) {read : List Char → Option (List Char)} {text source after : List Char}
    (hsource : source = front ++ (statement name function arguments ++ '\n' :: rest))
    (htext : text.length = source.length)
    (hfound : atLineStart? read true text = some (front.length, after))
    (hafter : after.length = ('(' :: (arguments ++ (");".toList ++ '\n' :: rest))).length) :
    declarationSpan read text source = .ok (some ⟨front.length,
      front.length + (statement name function arguments ++ ['\n']).length⟩) := by
  have hbefore : source = (front ++ ("export const ".toList ++ (name ++ (" = ".toList ++ function)))) ++
      '(' :: (arguments ++ (");".toList ++ '\n' :: rest)) := by
    rw [hsource, statement_append]
    simp only [List.append_assoc]
  have hlength : text.length - after.length =
      (front ++ ("export const ".toList ++ (name ++ (" = ".toList ++ function)))).length := by
    rw [htext, hafter, hbefore, List.length_append, Nat.add_sub_cancel]
  have hstop : source.length - rest.length =
      front.length + (statement name function arguments ++ ['\n']).length := by
    rw [hsource]
    simp only [List.length_append, List.length_cons, List.length_nil]
    omega
  rw [declarationSpan, hfound]
  simp only [hlength, blockEnd_call h hbefore, hstop]
  rfl

/-- The text of a statement before the parenthesis of its call. -/
def beforeCall (statement : List Char) : List Char := statement.takeWhile (· != '(')

/-- Bracket matching from the parenthesis of its call cuts a statement out exactly: wherever the
statement stands and whatever comes after its line, its block ends behind its line break. -/
def Delimited (statement : List Char) : Prop :=
  ∀ front rest, blockEnd (front ++ (statement ++ '\n' :: rest)) (front ++ beforeCall statement).length =
    .ok ((front ++ statement).length + 1)

theorem beforeCall_statement {name function : List Char} (hname : '(' ∉ name)
    (hfunction : '(' ∉ function) (arguments : List Char) :
    beforeCall (statement name function arguments) =
      "export const ".toList ++ (name ++ (" = ".toList ++ function)) := by
  have hlead : ∀ c ∈ "export const ".toList ++ (name ++ (" = ".toList ++ function)),
      (c != '(') = true := by
    intro c hc
    refine bne_iff_ne.mpr fun he => ?_
    subst he
    simp only [List.mem_append] at hc
    rcases hc with hc | hc | hc | hc
    · exact absurd hc (by decide)
    · exact hname hc
    · exact absurd hc (by decide)
    · exact hfunction hc
  have hparts : statement name function arguments =
      ("export const ".toList ++ (name ++ (" = ".toList ++ function))) ++
        '(' :: (arguments ++ ");".toList) := by
    unfold statement
    rw [List.append_assoc, List.append_assoc, List.append_assoc]
  rw [beforeCall, hparts, List.takeWhile_append_of_pos hlead]
  simp

theorem delimited_statement {name function arguments : List Char} (hname : '(' ∉ name)
    (hfunction : '(' ∉ function) (h : Inline arguments) :
    Delimited (statement name function arguments) := by
  intro front rest
  rw [beforeCall_statement hname hfunction]
  have hsource : front ++ (statement name function arguments ++ '\n' :: rest) =
      (front ++ ("export const ".toList ++ (name ++ (" = ".toList ++ function)))) ++
        '(' :: (arguments ++ (");".toList ++ '\n' :: rest)) := by
    rw [statement_append]
    simp only [List.append_assoc]
  rw [blockEnd_call h hsource]
  congr 1
  simp only [List.length_append, List.length_cons]
  omega

end Source

theorem Search.tableFunctions : Search callsTableFunction where
  called w h := .inl (by simpa [callsTableFunction] using h)
  named w h := by simp [callsTableFunction] at h

namespace Definition

variable (d : Definition)

theorem function_mem : d.table.function.toList ∈ tableFunctions.map String.toList := by
  rw [d.function_eq]
  cases d.dialect <;> decide

theorem exportName_ne_nil (h : d.table.name ≠ "") : d.table.exportName.toList ≠ [] := by
  rw [d.name_eq, Ne, snakeCase_eq_empty d.plural_chars] at h
  rw [d.exportName_eq]
  obtain ⟨first, others, hwords⟩ := List.exists_cons_of_ne_nil h
  obtain ⟨hne, hchars⟩ := words_alphanum d.plural_chars (w := first) (by simp [hwords])
  rw [camelCase_toList _ hwords, lower_ascii fun c hc => isAlphanum_ascii (hchars c hc)]
  simp [hne]

/-- The block up to the quote before its name. -/
def opening : List Char :=
  "export const ".toList ++ (d.table.exportName.toList ++ (" = ".toList ++
    (d.table.function.toList ++ ['('])))

/-- The block after the quote behind its name. -/
def remainder : List Char := ", \x7b\n".toList ++ d.closing

theorem block_parts : d.table.renderBlock.toList ++ ['\n'] =
    d.opening ++ '"' :: (d.table.name.toList ++ '"' :: d.remainder) := by
  have hopen : "(\"".toList = ['(', '"'] := by decide
  have hbrace : "\", \x7b".toList = '"' :: ", \x7b".toList := by decide
  have hbreak : ", \x7b\n".toList = ", \x7b".toList ++ ['\n'] := by decide
  rw [d.block_eq]
  unfold firstLine opening remainder
  simp only [hopen, hbrace, hbreak, List.append_assoc, List.cons_append, List.nil_append,
    -String.reduceToList]

theorem firstQuote_block : FirstQuote d.opening (d.table.name.toList ++ '"' :: d.remainder) where
  none := by
    have hname : ∀ {s : List Char}, (∀ c ∈ s, c.isAlphanum = true) →
        s.all (fun c => !isQuote c) = true := by
      intro s h
      exact List.all_eq_true.mpr fun c hc =>
        nameChar_forall (p := fun c => !isQuote c) (by decide) (isNameChar_of_isAlphanum (h c hc))
    have hall : d.opening.all (fun c => !isQuote c) = true := by
      unfold opening
      simp only [List.all_append, Bool.and_eq_true]
      exact ⟨by decide, hname d.exportName_chars, by decide, hname d.function_alphanum, by decide⟩
    intro c hc
    simpa using List.all_eq_true.mp hall c hc
  first c h := by
    cases h
    decide
  alone h := by
    unfold opening at h
    simp at h

theorem name_quotes : ∀ c ∈ d.table.name.toList, isQuote c = false := fun c hc =>
  nameChar_forall (p := fun c => isQuote c = false) (by decide)
    (isNameChar_of_isSnakeChar (d.name_chars c hc))

/-- Up to its function a block calls nothing. -/
theorem passage_lead : Passage callsTableFunction
    (("export const ".toList ++ d.table.exportName.toList ++ " ".toList ++ ['=']) ++ [' ']) [] := by
  have hplain : '(' ∉ "export const ".toList ++ d.table.exportName.toList ++ " ".toList := by
    simp only [List.mem_append, not_or]
    exact ⟨⟨by decide, fun h => absurd (d.exportName_chars _ h) (by decide)⟩, by decide⟩
  refine Follows.append_nil (q := .between) ?_ (Search.tableFunctions.passage (by decide))
  refine passage_quiet (by decide) fun w called hw hcall => ?_
  cases called with
  | false => rfl
  | true => exact absurd (hcall rfl) hplain

/-- A block with its call in sight. -/
theorem block_call (rest : List Char) : d.table.renderBlock.toList ++ ['\n'] ++ rest =
    (("export const ".toList ++ d.table.exportName.toList ++ " ".toList ++ ['=']) ++ [' ']) ++
      (d.table.function.toList ++ '(' :: '"' :: (d.table.name.toList ++
        '"' :: (d.remainder ++ rest))) := by
  have hequals : " = ".toList = " ".toList ++ (['='] ++ [' ']) := by decide
  rw [d.block_parts]
  unfold opening
  simp only [hequals, List.append_assoc, List.cons_append, List.nil_append, -String.reduceToList]

section Unmarked

variable (hun : ∀ f ∈ d.fields, f.Unmarked callsTableFunction)

include hun

theorem passage_remainder : Passage callsTableFunction d.remainder [] := by
  have hcallers : (d.fields.flatMap fun f =>
      [(Mapping.caller d.dialect d.table.name f, true)].filter callsTableFunction) = [] := by
    refine List.flatMap_eq_nil_iff.mpr fun f _ => List.filter_eq_nil_iff.mpr fun u hu => ?_
    rw [List.mem_singleton.mp hu]
    unfold Mapping.caller
    split
    · have hlast : ¬ "Table".toList <:+ (Mapping.enumVariable d.table.name f).toList := by
        rw [Mapping.enumVariable, String.toList_append]
        intro hsuffix
        have hshort : "able".toList <:+ "Enum".toList ∨ "Enum".toList <:+ "able".toList :=
          List.suffix_or_suffix_of_suffix (List.IsSuffix.trans (by decide) hsuffix)
            (List.suffix_append _ _)
        revert hshort
        decide
      simpa [callsTableFunction] using hlast
    · cases d.dialect <;> cases f.type <;> decide
  have hclosing := d.passage_closing Search.tableFunctions hun
  rw [hcallers] at hclosing
  exact (Search.tableFunctions.passage (by decide)).append_nil hclosing

/-- The name of the table is the only one that its block calls. -/
theorem callNames_block (hname : d.table.name ≠ "") (rest : List Char) :
    callNames (d.table.renderBlock.toList ++ ['\n'] ++ rest) =
      d.table.name.toList :: callNames rest := by
  have hne : d.table.name.toList ≠ [] := by simpa using hname
  rw [d.block_call, callNames_passage d.passage_lead,
    callNames_some (tableCall?_name d.function_mem d.name_quotes hne _),
    callNames_passage (d.passage_remainder hun)]

/-- Behind a call that was left open, the block names no table. -/
theorem callNames_name (rest : List Char) :
    callNames (d.table.name.toList ++ '"' :: d.remainder ++ rest) = callNames rest := by
  have hname : Passage callsTableFunction (d.table.name.toList ++ ['"']) [] :=
    Search.tableFunctions.snake d.name_chars
  have hparts : d.table.name.toList ++ '"' :: d.remainder =
      d.table.name.toList ++ ['"'] ++ d.remainder := by simp
  rw [hparts]
  exact callNames_passage (hname.append_nil (d.passage_remainder hun)) rest

end Unmarked

/-! ## Cutting the block out -/

/-- The parenthesis of the table call and everything after it. -/
def fromCall (rest : List Char) : List Char :=
  '(' :: (d.table.arguments ++ (");".toList ++ '\n' :: rest))

theorem constant?_block (hname : d.table.name ≠ "") (rest : List Char) :
    constant? (d.table.renderBlock.toList ++ rest) =
      some (d.table.exportName.toList,
        d.table.function.toList ++ '(' :: (d.table.arguments ++ (");".toList ++ rest))) := by
  rw [d.renderBlock_eq]
  exact constant?_statement d.table.function.toList d.table.arguments d.exportName_chars
    (d.exportName_ne_nil hname)
    (fun c hc => not_isBlank_of_isAlphanum (d.function_alphanum c (List.mem_of_head? hc))) rest

theorem tableDeclaration?_block (hname : d.table.name ≠ "") (rest : List Char) :
    tableDeclaration? d.table.name.toList (d.table.renderBlock.toList ++ '\n' :: rest) =
      some (d.fromCall rest) := by
  have hargument : ∃ after, namedArgument? d.table.name.toList (d.fromCall rest) = some after := by
    have hquote : "\"".toList = ['"'] ∧ "\", \x7b\n".toList = '"' :: ", \x7b\n".toList := by decide
    refine ⟨_, Eq.trans ?_ (namedArgument?_name d.table.name.toList (", \x7b\n".toList ++
      (d.table.columns.flatMap Column.chunk ++ (['\x7d'] ++ (");".toList ++ '\n' :: rest)))))⟩
    unfold fromCall Table.arguments
    simp only [hquote, List.append_assoc, List.cons_append, List.nil_append, -String.reduceToList]
  obtain ⟨after, hafter⟩ := hargument
  simp only [tableDeclaration?, Option.bind_eq_bind, d.constant?_block hname, Option.bind_some,
    tableFunction?_function d.function_mem]
  unfold fromCall at hafter
  rw [hafter]
  rfl

/-- Where the declaration of the block is found, the table is located at the block. -/
theorem locateTable_at (front rest : List Char) {source after name : List Char}
    (hsource : source = front ++ (d.table.renderBlock.toList ++ '\n' :: rest))
    (hexists : tableExists source name = true)
    (hfound : atLineStart? (tableDeclaration? name) true (mask source) = some (front.length, after))
    (hafter : after.length = (d.fromCall rest).length) :
    locateTable source name = .ok (some ⟨front.length,
      front.length + (d.table.renderBlock.toList ++ ['\n']).length⟩) := by
  have hspan := declarationSpan_statement d.inline_arguments front rest
    (d.renderBlock_eq ▸ hsource) (mask_length source) hfound hafter
  rw [← d.renderBlock_eq] at hspan
  simp only [locateTable, hexists, Bool.not_true, Bool.false_eq_true, if_false, hspan]

/-- Where the declaration of the block is found, the block is cut out as it was written. -/
theorem tableBlock?_at (front rest : List Char) {source after name : List Char}
    (hsource : source = front ++ (d.table.renderBlock.toList ++ '\n' :: rest))
    (hexists : tableExists source name = true)
    (hfound : atLineStart? (tableDeclaration? name) true (mask source) = some (front.length, after))
    (hafter : after.length = (d.fromCall rest).length) :
    Source.tableBlock? source name = .ok (some (d.table.renderBlock.toList ++ ['\n'])) := by
  rw [Source.tableBlock?, d.locateTable_at front rest hsource hexists hfound hafter, Except.map]
  rw [Option.map_some, hsource, Span.cut_statement]

/-! ## Where its statements end -/

theorem paren_not_mem_exportName : '(' ∉ d.table.exportName.toList :=
  fun h => absurd (d.exportName_chars _ h) (by decide)

theorem paren_not_mem_function : '(' ∉ d.table.function.toList :=
  fun h => absurd (d.function_alphanum _ h) (by decide)

theorem paren_not_mem_enumVariable {f : Field} (hf : f.Accepted) :
    '(' ∉ (Mapping.enumVariable d.table.name f).toList :=
  fun h => absurd (Mapping.enumVariable_chars d.name_chars hf _ h) (by decide)

theorem beforeCall_block : beforeCall d.table.renderBlock.toList =
    ("export const " ++ d.table.exportName ++ " = " ++ d.table.function).toList := by
  rw [d.renderBlock_eq, beforeCall_statement d.paren_not_mem_exportName d.paren_not_mem_function]
  simp only [String.toList_append, List.append_assoc, -String.reduceToList]

theorem delimited_block : Delimited d.table.renderBlock.toList := by
  rw [d.renderBlock_eq]
  exact delimited_statement d.paren_not_mem_exportName d.paren_not_mem_function d.inline_arguments

theorem beforeCall_enumDeclaration {f : Field} (hf : f.Accepted) :
    beforeCall (Mapping.enumDeclaration d.table.name f) =
      ("export const " ++ Mapping.enumVariable d.table.name f ++ " = pgEnum").toList := by
  have hequals : " = pgEnum".toList = " = ".toList ++ "pgEnum".toList := by decide
  rw [Mapping.enumDeclaration,
    beforeCall_statement (d.paren_not_mem_enumVariable hf) (by decide)]
  simp only [String.toList_append, hequals, List.append_assoc, -String.reduceToList]

theorem delimited_enumDeclaration {f : Field} (hf : f.Accepted) :
    Delimited (Mapping.enumDeclaration d.table.name f) :=
  delimited_statement (d.paren_not_mem_enumVariable hf) (by decide)
    (Mapping.inline_enumArguments d.name_chars hf)

/-- Every declaration of a table is that of one of its native enums. -/
theorem exists_nativeEnum {declaration : String} (h : declaration ∈ d.table.declarations) :
    ∃ f ∈ Mapping.nativeEnums d.dialect d.fields,
      declaration.toList = Mapping.enumDeclaration d.table.name f := by
  have hmem := List.mem_map_of_mem (f := String.toList) h
  rw [d.declarations_eq] at hmem
  obtain ⟨f, hf, heq⟩ := List.mem_map.mp hmem
  exact ⟨f, hf, heq.symm⟩

/-- Whatever values its enums list, the text of a table is delimited exactly. Masking comments leaves
it alone, and bracket matching from the call of the table, or from that of an enum, stops where the
statement does. -/
theorem render_delimited : mask d.table.render.toList = d.table.render.toList ∧
    (beforeCall d.table.renderBlock.toList =
        ("export const " ++ d.table.exportName ++ " = " ++ d.table.function).toList ∧
      Delimited d.table.renderBlock.toList) ∧
    ∀ declaration ∈ d.table.declarations,
      (∃ name, beforeCall declaration.toList =
        ("export const " ++ name ++ " = pgEnum").toList) ∧
      Delimited declaration.toList := by
  refine ⟨?_, ⟨d.beforeCall_block, d.delimited_block⟩, fun declaration h => ?_⟩
  · rw [d.table.render_toList]
    exact mask_inline_self (d.inline_preamble.append d.inline_renderBlock)
  · obtain ⟨f, hf, heq⟩ := d.exists_nativeEnum h
    have haccepted := d.nativeEnum_accepted hf
    rw [heq]
    exact ⟨⟨_, d.beforeCall_enumDeclaration haccepted⟩, d.delimited_enumDeclaration haccepted⟩

/-- A table with an enum whose values hold quotes, brackets, comment marks, a backslash and a line
break. -/
def noteKinds : Definition :=
  .build "Note" ["kind:enum:a'b,\"(,/*,\x60\x7d,\\,//x\ny,)"] .postgresql {} rfl rfl rfl

theorem render_delimited_kinds :
    let enum := "export const notesKindEnum = pgEnum(\"notes_kind\", [\"a'b\", \"\\\"(\", \"/*\", " ++
      "\"\x60\x7d\", \"\\\\\", \"//x\\ny\", \")\"]);"
    enum ∈ noteKinds.table.declarations ∧
      blockEnd ("// kinds\n".toList ++ (enum.toList ++ '\n' :: "(".toList)) 44 = .ok 109 := by
  intro enum
  have hmem : enum ∈ noteKinds.table.declarations := by decide +kernel
  have hstart : ("// kinds\n".toList ++ beforeCall enum.toList).length = 44 := by decide +kernel
  have hstop : ("// kinds\n".toList ++ enum.toList).length + 1 = 109 := by decide +kernel
  have h := (noteKinds.render_delimited.2.2 enum hmem).2 "// kinds\n".toList "(".toList
  rw [hstart, hstop] at h
  exact ⟨hmem, h⟩

end Definition
end SchemaScaffold
