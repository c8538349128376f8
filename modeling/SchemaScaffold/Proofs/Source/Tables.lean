import SchemaScaffold.Proofs.Source.Calls
import SchemaScaffold.Proofs.Source.Starts

/-!
Table declarations in a text. A declaration starts a line, and it is read within the text that it
starts in. A table that is reported is also found to exist: both look for the same call.
-/

namespace SchemaScaffold.Source

open Text

/-! ## Reported tables exist -/

theorem callsTable_of_tableCall? {cs name rest : List Char} (h : tableCall? cs = some (name, rest)) :
    callsTable name cs = true := by
  obtain ⟨a, b, ha, hb, hq⟩ := tableCall?_eq_some h
  obtain ⟨q, q', hq1, hq2, -, -, he⟩ := quoted?_eq_some hq
  have hname : quote? isQuote (skipBlanks b) = some (name ++ q' :: rest) := by
    rw [he, quote?, if_pos hq1]
  have hrest : quote? isQuote (q' :: rest) = some rest := by rw [quote?, if_pos hq2]
  simp [callsTable, namedArgument?, ha, hb, hname, dropText?_append, hrest]

theorem anywhere_of_suffix {test : List Char → Bool} {a b : List Char} (hs : b <:+ a)
    (h : anywhere test b = true) : anywhere test a = true := by
  obtain ⟨front, rfl⟩ := hs
  induction front with
  | nil => exact h
  | cons c front ih => simp [anywhere, ih]

/-- A reported name is that of a call somewhere in the text. -/
theorem mem_callNames {cs name : List Char} (h : name ∈ callNames cs) :
    ∃ s rest, s <:+ cs ∧ tableCall? s = some (name, rest) := by
  match cs with
  | [] => simp [callNames] at h
  | c :: cs =>
    cases hcall : tableCall? (c :: cs) with
    | none =>
      rw [callNames_none hcall] at h
      obtain ⟨s, rest, hs, hname⟩ := mem_callNames h
      exact ⟨s, rest, hs.trans (List.suffix_cons c cs), hname⟩
    | some call =>
      obtain ⟨first, rest⟩ := call
      have hlength : rest.length ≤ cs.length := Nat.le_of_lt_succ (tableCall?_length hcall)
      rw [callNames_some hcall] at h
      rcases List.mem_cons.mp h with rfl | h
      · exact ⟨c :: cs, rest, List.suffix_refl _, hcall⟩
      · obtain ⟨s, rest', hs, hname⟩ := mem_callNames h
        exact ⟨s, rest', hs.trans (tableCall?_suffix hcall), hname⟩
termination_by cs.length

/-- A table that is reported exists. -/
theorem tableExists_of_mem {source : List Char} {name : String} (h : name ∈ tableNames source) :
    tableExists source name.toList = true := by
  obtain ⟨cs, hcs, rfl⟩ := List.mem_map.mp h
  obtain ⟨s, rest, hs, hcall⟩ := mem_callNames hcs
  rw [String.toList_ofList]
  refine anywhere_of_suffix hs ?_
  cases s with
  | nil => cases hcall
  | cons c s => simp [anywhere, callsTable_of_tableCall? hcall]

/-- A table without a name is not reported. -/
theorem ne_empty_of_mem {source : List Char} {name : String} (h : name ∈ tableNames source) :
    name ≠ "" := by
  obtain ⟨cs, hcs, rfl⟩ := List.mem_map.mp h
  obtain ⟨s, rest, -, hcall⟩ := mem_callNames hcs
  obtain ⟨a, b, -, -, hq⟩ := tableCall?_eq_some hcall
  obtain ⟨q, q', -, -, -, hne, -⟩ := quoted?_eq_some hq
  simpa using hne

/-! ## No declaration across the end of a text -/

section Exports

variable {a b : List Char} (ha : EndsLine a) (hb : Exports b)

include ha hb

theorem quote?_exports : quote? isQuote (a ++ b) = (quote? isQuote a).map (· ++ b) := by
  cases a with
  | nil =>
    obtain ⟨rest, rfl⟩ := hb.cons
    rfl
  | cons c a =>
    rw [List.cons_append, quote?, quote?]
    split <;> rfl

theorem namedArgument?_exports {name : List Char} (hname : '\n' ∉ name) :
    namedArgument? name (a ++ b) = (namedArgument? name a).map (· ++ b) := by
  simp only [namedArgument?, Option.bind_eq_bind, openCall?_exports ha hb]
  cases hopen : openCall? a with
  | none => rfl
  | some c1 =>
    have hblanks : '(' :: c1 <:+ a := openCall?_eq hopen ▸ skipBlanks_suffix a
    have hline : EndsLine (skipBlanks c1) :=
      ha.suffix ((skipBlanks_suffix c1).trans ((List.suffix_cons _ _).trans hblanks))
    simp only [Option.map_some, Option.bind_some, skipBlanks_exports hb, quote?_exports hline hb]
    cases hquote : skipBlanks c1 with
    | nil => rfl
    | cons q c2 =>
      rw [hquote] at hline
      by_cases hq : isQuote q = true
      · have hne : c2 ≠ [] := List.ne_nil_of_mem (hline.mem_tail (by rintro rfl; cases hq))
        simp only [quote?, hq, if_true, Option.map_some, Option.bind_some,
          hline.tail.dropText? hname hne]
        cases hdrop : dropText? name c2 with
        | none => rfl
        | some c3 => exact quote?_exports (hline.tail.suffix (dropText?_suffix hdrop)) hb
      · simp [quote?, hq]

theorem tableFunction?_exports : tableFunction? (a ++ b) = (tableFunction? a).map (· ++ b) := by
  by_cases hne : a = []
  · obtain ⟨rest, rfl⟩ := hb.cons
    subst hne
    rfl
  · exact tableFunction?_endsLine ha hne b

/-- A table declaration is read within a text, or not at all. -/
theorem tableDeclaration?_exports (hne : a ≠ []) {name : List Char} (hname : '\n' ∉ name) :
    tableDeclaration? name (a ++ b) = (tableDeclaration? name a).map (· ++ b) := by
  simp only [tableDeclaration?, Option.bind_eq_bind, constant?_exports ha hb hne]
  cases hconstant : constant? a with
  | none => rfl
  | some parts =>
    have hvalue : EndsLine parts.2 := ha.suffix (constant?_suffix hconstant)
    simp only [Option.map_some, Option.bind_some, tableFunction?_exports hvalue hb]
    cases hfunction : tableFunction? parts.2 with
    | none => rfl
    | some rest =>
      obtain ⟨function, -, hparts⟩ := tableFunction?_eq hfunction
      have hrest : EndsLine rest := hvalue.suffix (hparts ▸ List.suffix_append _ _)
      simp only [Option.map_some, Option.bind_some, namedArgument?_exports hrest hb hname,
        skipBlanks_exports hb]
      cases namedArgument? name rest <;> rfl

end Exports
end SchemaScaffold.Source
