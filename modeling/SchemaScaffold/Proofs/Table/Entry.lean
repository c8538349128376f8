import SchemaScaffold.Proofs.Schema.EnumDeclarations
import SchemaScaffold.Proofs.Table.Block
import SchemaScaffold.Proofs.Table.ImportLines
import SchemaScaffold.Proofs.Table.Variables

/-!
A table as an entry of a schema: a blank line, the declarations of its native enums with a blank line
after them, and its block. Whoever looks for another table, for an enum of another table or for
imported names passes over the whole entry.
-/

namespace SchemaScaffold

open Source Naming Text

namespace Source

/-- What stands before the first mark of a kind is told by the text. -/
theorem eq_of_marks {p : Char → Bool} {a b r s : List Char} {x y : Char}
    (ha : ∀ c ∈ a, p c = false) (hb : ∀ c ∈ b, p c = false) (hx : p x = true) (hy : p y = true)
    (h : a ++ x :: r = b ++ y :: s) : a = b := by
  have hfront : ∀ {a r : List Char} {x : Char}, (∀ c ∈ a, p c = false) → p x = true →
      (a ++ x :: r).takeWhile (!p ·) = a := by
    intro a r x ha hx
    rw [List.takeWhile_append_of_pos fun c hc => by simp [ha c hc]]
    simp [hx]
  rw [← hfront ha hx, h, hfront hb hy]

theorem namedArgument?_other {name other : List Char} (hname : ∀ c ∈ name, isQuote c = false)
    (hother : ∀ c ∈ other, isQuote c = false) (hne : other ≠ name) (rest : List Char) :
    namedArgument? other ('(' :: '"' :: (name ++ '"' :: rest)) = none := by
  have hopen : openCall? ('(' :: '"' :: (name ++ '"' :: rest)) = some ('"' :: (name ++ '"' :: rest)) :=
    rfl
  have hquote : quote? isQuote (skipBlanks ('"' :: (name ++ '"' :: rest))) =
      some (name ++ '"' :: rest) := rfl
  simp only [namedArgument?, hopen, hquote, Option.bind_eq_bind, Option.bind_some]
  rw [Option.bind_eq_none_iff]
  intro after hafter
  cases after with
  | nil => rfl
  | cons q after =>
    rw [quote?, if_neg]
    intro hq
    exact hne (eq_of_marks hother hname hq (by decide) (dropText?_eq hafter).symm)

theorem tableDeclaration?_eq_none {name cs : List Char} (h : constant? cs = none) :
    tableDeclaration? name cs = none := by
  simp [tableDeclaration?, h]

theorem enumDeclaration?_eq_none {name cs : List Char} (h : constant? cs = none) :
    enumDeclaration? name cs = none := by
  simp [enumDeclaration?, h]

/-- Neither a text nor a table function starts with the other. -/
def startsNoFunction (t : List Char) : Bool :=
  tableFunctions.all fun function => !function.toList.isPrefixOf t && !t.isPrefixOf function.toList

theorem tableFunction?_append {t : List Char} (h : startsNoFunction t = true) (rest : List Char) :
    tableFunction? (t ++ rest) = none := by
  rw [Option.eq_none_iff_forall_ne_some]
  intro after hafter
  obtain ⟨name, hname, hdrop⟩ := List.exists_of_findSome?_eq_some hafter
  have hboth := List.all_eq_true.mp h name hname
  simp only [Bool.and_eq_true, Bool.not_eq_true', ← Bool.not_eq_true, List.isPrefixOf_iff_prefix]
    at hboth
  rcases List.prefix_or_prefix_of_prefix ⟨after, (dropText?_eq hdrop).symm⟩
    (List.prefix_append t rest) with hpre | hpre
  · exact hboth.1 hpre
  · exact hboth.2 hpre

/-- The call that declares a table is looked for by its name, and found nowhere within the name of
the function. -/
theorem anywhere_call {function name other : List Char}
    (hfunction : function ∈ tableFunctions.map String.toList)
    (hname : ∀ c ∈ name, isQuote c = false) (hother : ∀ c ∈ other, isQuote c = false)
    (rest : List Char) :
    anywhere (callsTable other) (function ++ '(' :: '"' :: (name ++ '"' :: rest)) =
      (other == name || anywhere (callsTable other) ('(' :: '"' :: (name ++ '"' :: rest))) := by
  have htails : ∀ function ∈ tableFunctions.map String.toList, function ≠ [] ∧
      ∀ i < function.tail.length, startsNoFunction (function.tail.drop i) = true := by
    decide
  have hwithin : ∀ t x : List Char, (∀ i < t.length, startsNoFunction (t.drop i) = true) →
      anywhere (callsTable other) (t ++ x) = anywhere (callsTable other) x := by
    intro t x ht
    induction t with
    | nil => rfl
    | cons c t ih =>
      have hnone := tableFunction?_append (ht 0 (by simp)) x
      rw [List.drop_zero, List.cons_append] at hnone
      rw [List.cons_append, anywhere, callsTable, hnone,
        ih fun i hi => ht (i + 1) (Nat.succ_lt_succ hi)]
      rfl
  obtain ⟨hne, htail⟩ := htails function hfunction
  have hhere : callsTable other (function ++ '(' :: '"' :: (name ++ '"' :: rest)) = (other == name) := by
    rw [callsTable, tableFunction?_function hfunction, Option.bind_some]
    by_cases he : other = name
    · rw [he, namedArgument?_name]
      simp
    · rw [namedArgument?_other hname hother he]
      simp [he]
  obtain ⟨c, function, rfl⟩ := List.exists_cons_of_ne_nil hne
  rw [List.cons_append] at hhere ⊢
  rw [anywhere, hhere]
  exact congrArg _ (hwithin _ _ htail)

end Source

namespace Definition

variable (d : Definition)

/-- The table as it stands in a schema. -/
def entry : List Char := '\n' :: (d.table.render.toList ++ ['\n'])

theorem entry_eq : d.entry = ['\n'] ++ (d.table.preamble ++ (d.table.renderBlock.toList ++ ['\n'])) := by
  rw [entry, d.table.render_toList, List.append_assoc, List.singleton_append]

theorem inline_entry : Inline d.entry := Inline.append (s := ['\n']) (by decide) d.inline_render

/-! ## Passing over an entry -/

section Skips

variable {α : Type} {read : List Char → Option α}

/-- The declarations of native enums, one a line. -/
theorem skips_enumLines {fields : List Field} (hfields : ∀ f ∈ fields, f.Accepted)
    (h : ∀ f ∈ fields, ∀ rest, read (Mapping.enumDeclaration d.table.name f ++ rest) = none) :
    Skips read (fields.flatMap fun f => Mapping.enumDeclaration d.table.name f ++ ['\n']) :=
  Skips.flatMap fun f hf => Skips.line (d.newline_not_mem_enumDeclaration (hfields f hf)) fun rest => by
    rw [List.append_assoc]
    exact h f hf _

theorem skips_preamble (hbreak : ∀ rest, read ('\n' :: rest) = none)
    (h : ∀ f ∈ Mapping.nativeEnums d.dialect d.fields, ∀ rest,
      read (Mapping.enumDeclaration d.table.name f ++ rest) = none) : Skips read d.table.preamble := by
  rw [d.preamble_eq]
  split
  · exact .nil
  · exact (d.skips_enumLines (fun f hf => d.nativeEnum_accepted hf) h).append (skips_break hbreak)

theorem skips_block (hcolon : StopsAt read ':') (hbrace : StopsAt read '\x7d')
    (h : ∀ rest, read (d.table.renderBlock.toList ++ '\n' :: rest) = none) :
    Skips read (d.table.renderBlock.toList ++ ['\n']) := by
  rw [d.block_eq]
  refine Skips.cons d.newline_not_mem_firstLine (d.skips_closing hcolon hbrace) fun rest => ?_
  rw [← d.block_eq, List.append_assoc]
  exact h rest

theorem skips_entry (hbreak : ∀ rest, read ('\n' :: rest) = none) (hcolon : StopsAt read ':')
    (hbrace : StopsAt read '\x7d')
    (henum : ∀ f ∈ Mapping.nativeEnums d.dialect d.fields, ∀ rest,
      read (Mapping.enumDeclaration d.table.name f ++ rest) = none)
    (hblock : ∀ rest, read (d.table.renderBlock.toList ++ '\n' :: rest) = none) :
    Skips read d.entry := by
  rw [d.entry_eq]
  exact (skips_break hbreak).append
    ((d.skips_preamble hbreak henum).append (d.skips_block hcolon hbrace hblock))

end Skips

/-- A reader that starts with a constant passes over an entry if it fails at the constants there. -/
theorem skips_constants {read : List Char → Option (List Char)}
    (hread : ∀ cs, constant? cs = none → read cs = none)
    (henum : ∀ f ∈ Mapping.nativeEnums d.dialect d.fields, ∀ rest,
      read (Mapping.enumDeclaration d.table.name f ++ rest) = none)
    (hblock : ∀ rest, read (d.table.renderBlock.toList ++ '\n' :: rest) = none) :
    Skips read d.entry := by
  have hstop : ∀ {stop : Char}, StopsAt constant? stop → StopsAt read stop :=
    fun h front hfront rest => hread _ (h front hfront rest)
  refine d.skips_entry (fun rest => hread _ rfl) (hstop ?_) (hstop ?_) henum hblock
  · exact stopsAt_constant? (by decide) (by decide) (by decide)
  · exact stopsAt_constant? (by decide) (by decide) (by decide)

theorem skips_importAt? : Skips importAt? d.entry := by
  have hexport : ∀ {cs : List Char}, Exports cs → importAt? cs = none := by
    intro cs h
    obtain ⟨rest, rfl⟩ := h.cons
    rfl
  refine d.skips_entry (fun _ => rfl) (stopsAt_importAt? (by decide) (by decide) (by decide))
    (stopsAt_importAt? (by decide) (by decide) (by decide)) (fun f _ rest => ?_) fun rest => ?_
  · exact hexport ((exports_statement _ _ _).append rest)
  · rw [d.renderBlock_eq]
    exact hexport ((exports_statement _ _ _).append _)

theorem tableDeclaration?_enumDeclaration {name : List Char} {f : Field} (hf : f.Accepted)
    (rest : List Char) :
    tableDeclaration? name (Mapping.enumDeclaration d.table.name f ++ rest) = none := by
  rw [tableDeclaration?, d.constant?_enumDeclaration hf]
  rfl

/-- Nor is a table declared above its block. -/
theorem skips_front {name : List Char} :
    Skips (tableDeclaration? name) ('\n' :: d.table.preamble) :=
  (skips_break fun _ => rfl).append (d.skips_preamble (fun _ => rfl) fun _ hf rest =>
    d.tableDeclaration?_enumDeclaration (d.nativeEnum_accepted hf) rest)

/-- An entry declares no other table. -/
theorem skips_tableDeclaration? (hname : d.table.name ≠ "") {other : List Char}
    (hother : ∀ c ∈ other, isQuote c = false) (hne : other ≠ d.table.name.toList) :
    Skips (tableDeclaration? other) d.entry := by
  refine d.skips_constants (fun _ => tableDeclaration?_eq_none) (fun f hf rest => ?_) fun rest => ?_
  · exact d.tableDeclaration?_enumDeclaration (d.nativeEnum_accepted hf) rest
  · have harguments : ∃ after, d.table.arguments ++ (");".toList ++ '\n' :: rest) =
        '"' :: (d.table.name.toList ++ '"' :: after) := by
      have hquote : "\"".toList = ['"'] ∧ "\", \x7b\n".toList = '"' :: ", \x7b\n".toList := by decide
      refine ⟨", \x7b\n".toList ++ (d.table.columns.flatMap Column.chunk ++ (['\x7d'] ++
        (");".toList ++ '\n' :: rest))), ?_⟩
      unfold Table.arguments
      simp only [hquote, List.append_assoc, List.cons_append, List.nil_append, -String.reduceToList]
    obtain ⟨after, hafter⟩ := harguments
    simp only [tableDeclaration?, Option.bind_eq_bind, d.constant?_block hname, Option.bind_some,
      tableFunction?_function d.function_mem, hafter,
      namedArgument?_other d.name_quotes hother hne]
    rfl

/-- An entry declares no enum but its own. -/
theorem skips_enumDeclaration? (hname : d.table.name ≠ "") {v : List Char}
    (hv : v ∉ d.enumVariables) : Skips (enumDeclaration? v) d.entry := by
  refine d.skips_constants (fun _ => enumDeclaration?_eq_none) (fun f hf rest => ?_) fun rest => ?_
  · have hother : ((Mapping.enumVariable d.table.name f).toList == v) = false := by
      rw [beq_eq_false_iff_ne]
      rintro rfl
      exact hv (List.mem_map_of_mem hf)
    have hfunction : ∀ after, word? ("pgEnum".toList ++ '(' :: after) =
        some ("pgEnum".toList, '(' :: after) := fun _ => rfl
    simp only [enumDeclaration?, Option.bind_eq_bind,
      d.constant?_enumDeclaration (d.nativeEnum_accepted hf), Option.bind_some, hfunction, hother]
    rfl
  · have hfunction : ∀ after, word? (d.table.function.toList ++ '(' :: after) =
        some (d.table.function.toList, '(' :: after) := fun after =>
      word?_name (fun c hc => isWordChar_of_isAlphanum (d.function_alphanum c hc)) d.function_ne_nil
        (by rintro c ⟨⟩; decide)
    have hends : endsInEnum d.table.function.toList = false := by
      rw [d.function_eq]
      cases d.dialect <;> decide
    simp only [enumDeclaration?, Option.bind_eq_bind, d.constant?_block hname, Option.bind_some,
      hfunction, hends, Bool.and_false]
    rfl

end Definition
end SchemaScaffold
