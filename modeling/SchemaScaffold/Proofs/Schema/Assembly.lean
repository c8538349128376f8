import SchemaScaffold.Proofs.Outcome
import SchemaScaffold.Schema

/-!
How a merge puts its text together: what it keeps of the old text, with the imports brought up to
date, and then the table. Everything a merge can do is one of these two things: leave the text as it
is, or put the table after what is kept.
-/

namespace SchemaScaffold.Schema

open Source

/-- A part of a text, unless it is empty. -/
def part (cs : List Char) : List (List Char) := if cs.isEmpty then [] else [cs]

/-- What stands before the table: the header, the imports and the other statements. -/
def front (header source : List Char) (table : Table) : List Char :=
  (part (Text.trim header) ++
    [((extractImports source).merge table.requiredImports).render.toList] ++
    part (Text.trim (stripImports source))).flatMap (· ++ ['\n', '\n'])

/-- What a merge that writes the table keeps before it. -/
def kept (existing : Option String) (table : Table) : Except SourceError (List Char) :=
  let source := (existing.getD "").toList
  if Text.allBlank source then .ok (table.requiredImports.render.toList ++ ['\n', '\n'])
  else if tableExists source table.name.toList then
    (removeTable (afterHeader source) table.name.toList).map fun rest =>
      front (header source) rest table
  else .ok (front (header source) (afterHeader source) table)

theorem intercalate_snoc (separator last : List Char) (parts : List (List Char)) :
    separator.intercalate (parts ++ [last]) = parts.flatMap (· ++ separator) ++ last := by
  induction parts with
  | nil => simp
  | cons first parts ih =>
    cases parts with
    | nil => simp [List.intercalate_cons_cons]
    | cons second parts =>
      rw [List.cons_append, List.cons_append, List.intercalate_cons_cons, ← List.cons_append, ih]
      simp

theorem assemble_toList (header source : List Char) (table : Table) :
    (assemble header source table).toList =
      front header source table ++ (table.render.toList ++ ['\n']) := by
  have hpart : ∀ cs : List Char,
      (if cs.isEmpty then [] else [String.ofList cs]).map String.toList = part cs := by
    intro cs
    unfold part
    split <;> simp
  have hbreak : "\n\n".toList = ['\n', '\n'] ∧ "\n".toList = ['\n'] := by decide
  simp only [assemble, String.toList_append, String.toList_intercalate, List.map_append, hpart,
    List.map_cons, List.map_nil, hbreak, -String.reduceToList]
  rw [intercalate_snoc, List.append_assoc]
  rfl

theorem fresh_toList (table : Table) : (fresh table).toList =
    table.requiredImports.render.toList ++ ['\n', '\n'] ++ (table.render.toList ++ ['\n']) := by
  have hbreak : "\n\n".toList = ['\n', '\n'] ∧ "\n".toList = ['\n'] := by decide
  simp only [fresh, String.toList_append, hbreak, List.append_assoc]

/-- The action of a merge that writes. -/
def written (existing : Option String) (table : Table) : MergeAction :=
  let source := (existing.getD "").toList
  if Text.allBlank source then .created
  else if tableExists source table.name.toList then .replaced
  else .appended

/-- A merge skips a table that is there, or writes it after what it keeps. -/
theorem merge_cases {existing : Option String} {table : Table} {force : Bool} {m : Merge}
    (h : merge existing table force = .ok m) :
    (Text.allBlank (existing.getD "").toList = false ∧
      tableExists (existing.getD "").toList table.name.toList = true ∧ force = false ∧
      m = { content := existing.getD "", action := .skipped }) ∨
    m.action = written existing table ∧ ∃ k, kept existing table = .ok k ∧
      m.content.toList = k ++ (table.render.toList ++ ['\n']) := by
  unfold merge at h
  unfold kept written
  dsimp only at h ⊢
  rcases ite_ok h with ⟨hblank, h⟩ | ⟨hblank, h⟩
  · cases h
    rw [if_pos hblank, if_pos hblank]
    exact .inr ⟨rfl, _, rfl, fresh_toList table⟩
  · rw [if_neg hblank, if_neg hblank]
    rcases ite_ok h with ⟨hexists, h⟩ | ⟨hexists, h⟩
    · rw [if_pos hexists, if_pos hexists]
      rcases ite_ok h with ⟨hforce, h⟩ | ⟨hforce, h⟩
      · cases h
        exact .inl ⟨by simpa using hblank, hexists, by simpa using hforce, rfl⟩
      · obtain ⟨rest, hrest, rfl⟩ := map_ok h
        exact .inr ⟨rfl, front (header (existing.getD "").toList) rest table, by rw [hrest]; rfl,
          assemble_toList _ _ _⟩
    · rw [if_neg hexists, if_neg hexists]
      have hm := Except.ok.inj h
      subst hm
      exact .inr ⟨rfl, front (header (existing.getD "").toList) (afterHeader (existing.getD "").toList)
        table, rfl, assemble_toList _ _ _⟩

theorem written_ne_skipped (existing : Option String) (table : Table) :
    written existing table ≠ .skipped := by
  unfold written
  dsimp only
  split
  · simp
  · split <;> simp

/-- What is kept ends with a blank line. -/
theorem kept_ends {existing : Option String} {table : Table} {k : List Char}
    (h : kept existing table = .ok k) : ['\n', '\n'] <:+ k := by
  have hfront : ∀ header source, ['\n', '\n'] <:+ front header source table := by
    intro header source
    have hparts : ∀ parts : List (List Char), parts ≠ [] →
        ['\n', '\n'] <:+ parts.flatMap (· ++ ['\n', '\n']) := by
      intro parts hne
      obtain ⟨parts, last, rfl⟩ := List.eq_nil_or_concat parts |>.resolve_left hne
      simp only [List.concat_eq_append, List.flatMap_append, List.flatMap_cons, List.flatMap_nil,
        List.append_nil]
      rw [← List.append_assoc]
      exact List.suffix_append _ _
    exact hparts _ (by simp)
  unfold kept at h
  rcases ite_ok h with ⟨-, h⟩ | ⟨-, h⟩
  · cases h
    exact List.suffix_append _ _
  · rcases ite_ok h with ⟨-, h⟩ | ⟨-, h⟩
    · obtain ⟨rest, -, rfl⟩ := map_ok h
      exact hfront _ _
    · rw [← Except.ok.inj h]
      exact hfront _ _

end SchemaScaffold.Schema
