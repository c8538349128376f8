import SchemaScaffold.Text.Quoted
import SchemaScaffold.Text.Search

/-!
What can stand in a literal. Escaping puts nothing into a text but backslashes and what follows
them, so a word that neither holds a backslash nor starts like an escape is found in a literal only
if it is found in the text itself.
-/

namespace SchemaScaffold.Text

theorem occurs_iff {needle cs : List Char} : occurs needle cs = true ↔ needle <:+: cs := by
  induction cs with
  | nil => simp [occurs]
  | cons c cs ih => rw [occurs, Bool.or_eq_true, ih, List.isPrefixOf_iff_prefix, List.infix_cons_iff]

theorem occursIn_eq_false {needle s : String} :
    occursIn needle s = false ↔ ¬ needle.toList <:+: s.toList := by
  rw [occursIn, ← Bool.not_eq_true, occurs_iff]

/-- The characters that escapes are written with. -/
def isEscape (c : Char) : Bool := "\\\"nrtfbu0123456789abcdef".toList.contains c

/-- A character stands for itself, or for an escape. -/
theorem jsonChar_cases (c : Char) :
    jsonChar c = [c] ∨ ∃ cs, jsonChar c = '\\' :: cs ∧ ∀ d ∈ '\\' :: cs, isEscape d = true := by
  have hdigit : ∀ n : Nat, n < 16 → isEscape (hexDigit n) = true := by
    have hall : ∀ n : Fin 16, isEscape (hexDigit n) = true := by decide
    exact fun n hn => hall ⟨n, hn⟩
  unfold jsonChar
  split
  iterate 7 exact .inr ⟨_, rfl, List.all_eq_true.mp (by decide)⟩
  · split
    · refine .inr ⟨_, rfl, ?_⟩
      simp only [List.forall_mem_cons, List.not_mem_nil, false_implies, implies_true, and_true]
      exact ⟨by decide, by decide, hdigit _ (by omega), hdigit _ (by omega), hdigit _ (by omega),
        hdigit _ (by omega)⟩
    · exact .inl rfl

theorem prefix_of_escaped {w : List Char} (hw : '\\' ∉ w) :
    ∀ {cs : List Char}, w <+: cs.flatMap jsonChar → w <+: cs := by
  intro cs h
  induction cs generalizing w with
  | nil => exact h
  | cons c cs ih =>
    cases w with
    | nil => exact List.nil_prefix
    | cons d w =>
      rw [List.flatMap_cons] at h
      rcases jsonChar_cases c with hc | ⟨escape, hc, -⟩
      · rw [hc, List.singleton_append, List.cons_prefix_cons] at h
        rw [List.cons_prefix_cons]
        exact ⟨h.1, ih (fun hm => hw (List.mem_cons_of_mem _ hm)) h.2⟩
      · rw [hc, List.cons_append, List.cons_prefix_cons] at h
        exact absurd (by simp [h.1]) hw

theorem infix_of_escaped {c : Char} {w : List Char} (hc : isEscape c = false) (hw : '\\' ∉ c :: w)
    {cs : List Char} (h : c :: w <:+: cs.flatMap jsonChar) : c :: w <:+: cs := by
  induction cs with
  | nil => exact h
  | cons d cs ih =>
    have hhead : ∀ {front : List Char}, c ∈ front → front <:+: jsonChar d → jsonChar d = [d] ∧ c = d := by
      intro front hmem hfront
      rcases jsonChar_cases d with hd | ⟨escape, hd, hall⟩
      · exact ⟨hd, by simpa [hd] using hfront.subset hmem⟩
      · have := hall c (hd ▸ hfront.subset hmem)
        rw [hc] at this
        cases this
    rw [List.flatMap_cons] at h
    rcases List.infix_append_iff_ne_nil.mp h with h | h | ⟨front, back, hfront, -, he, hsuffix, hprefix⟩
    · obtain ⟨hd, -⟩ := hhead (List.mem_cons_self) h
      rw [hd] at h
      exact h.trans (List.prefix_append [d] cs).isInfix
    · exact List.infix_cons (ih h)
    · cases front with
      | nil => exact absurd rfl hfront
      | cons c' front =>
        rw [List.cons_append, List.cons.injEq] at he
        obtain ⟨rfl, rfl⟩ := he
        obtain ⟨hd, rfl⟩ := hhead (List.mem_cons_self) hsuffix.isInfix
        have hnil : front = [] := by
          have := hsuffix.length_le
          rw [hd] at this
          simpa using this
        subst hnil
        have hback := prefix_of_escaped (fun hm => hw (List.mem_cons_of_mem _ hm)) hprefix
        exact (List.cons_prefix_cons.mpr ⟨rfl, hback⟩).isInfix

/-- What stands in a literal, unless it starts like an escape, stands in the text. -/
theorem infix_of_jsonLiteral {c : Char} {w : List Char} (hc : isEscape c = false)
    (hw : '\\' ∉ c :: w) (hquote : '"' ∉ c :: w) {s : String}
    (h : c :: w <:+: (jsonLiteral s).toList) : c :: w <:+: s.toList := by
  rw [jsonLiteral, String.toList_ofList] at h
  apply infix_of_escaped hc hw
  rcases List.infix_append_iff_ne_nil.mp h with h | h | ⟨front, back, -, hback, he, -, hprefix⟩
  · rcases List.infix_cons_iff.mp h with h | h
    · exact absurd (by simp [(List.cons_prefix_cons.mp h).1]) hquote
    · exact h
  · exact absurd (h.subset List.mem_cons_self) (fun hm => by simp_all)
  · cases back with
    | nil => exact absurd rfl hback
    | cons d back =>
      have hd := (List.cons_prefix_cons.mp hprefix).1
      exact absurd (by rw [he, ← hd]; simp) hquote

/-- A character that is always escaped, and that no escape is written with, is in no literal. -/
theorem not_mem_jsonLiteral {c : Char} (hc : jsonChar c ≠ [c]) (hescape : isEscape c = false)
    (s : String) : c ∉ (jsonLiteral s).toList := by
  have hchar : ∀ d : Char, c ∉ jsonChar d := by
    intro d hmem
    rcases jsonChar_cases d with hd | ⟨escape, hd, hall⟩
    · rw [hd] at hmem
      rw [List.mem_singleton.mp hmem] at hc
      exact hc hd
    · rw [hd] at hmem
      rw [hall c hmem] at hescape
      cases hescape
  have hquote : c ≠ '"' := by
    rintro rfl
    exact absurd hescape (by decide)
  rw [jsonLiteral, String.toList_ofList]
  simp only [List.cons_append, List.mem_cons, List.mem_append, List.mem_flatMap, List.not_mem_nil,
    or_false, not_or]
  refine ⟨hquote, ?_, hquote⟩
  rintro ⟨d, -, hmem⟩
  exact hchar d hmem

/-! ## Pairs -/

/-- No `x` with a `y` after it, not even if an `x` stood before the text. -/
def Unpaired (x y : Char) (s : List Char) : Prop := ¬ [x, y] <:+: s ∧ s.head? ≠ some y

theorem Unpaired.append {x y : Char} {s t : List Char} (hs : Unpaired x y s) (ht : Unpaired x y t) :
    Unpaired x y (s ++ t) := by
  refine ⟨fun h => ?_, ?_⟩
  · rcases List.infix_append_iff_ne_nil.mp h with h | h | ⟨front, back, hfront, hback, he, -, hprefix⟩
    · exact hs.1 h
    · exact ht.1 h
    · cases front with
      | nil => exact hfront rfl
      | cons c front =>
        cases back with
        | nil => exact hback rfl
        | cons d back =>
          obtain ⟨rfl, hfront, rfl, rfl⟩ : x = c ∧ front = [] ∧ y = d ∧ back = [] := by
            cases front with
            | nil => simpa using he
            | cons => simp at he
          obtain ⟨t', rfl⟩ := hprefix
          exact ht.2 rfl
  · cases s with
    | nil => exact ht.2
    | cons c s => exact hs.2

theorem unpaired_of_not_mem {x y : Char} {s : List Char} (h : y ∉ s) : Unpaired x y s := by
  refine ⟨fun hin => h (hin.subset (by simp)), fun hhead => h (List.mem_of_head? hhead)⟩

end SchemaScaffold.Text
