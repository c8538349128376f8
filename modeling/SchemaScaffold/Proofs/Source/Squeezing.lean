import SchemaScaffold.Proofs.Source.Breaks
import SchemaScaffold.Proofs.Source.Starts

/-!
Reading behind squeezed line breaks. Squeezing takes a break out only behind two others, and a reader
passes over a third break wherever it passed over two. So what is masked, read and found in a
squeezed text is what is masked, read and found in the text itself, squeezed.
-/

namespace SchemaScaffold.Source

open Text

/-! ## Squeezing piece by piece -/

/-- The count of breaks just kept, behind a text. -/
def breaksAfter : Nat → List Char → Nat
  | kept, [] => kept
  | kept, c :: cs =>
    breaksAfter (if c = '\n' then if kept < 2 then kept + 1 else kept else 0) cs

theorem squeezeBreaks_cons {c : Char} (hc : c ≠ '\n') (kept : Nat) (cs : List Char) :
    squeezeBreaks kept (c :: cs) = c :: squeezeBreaks 0 cs := by
  rw [squeezeBreaks, if_neg (by simpa using hc)]

theorem squeezeBreaks_keep {kept : Nat} (h : kept < 2) (cs : List Char) :
    squeezeBreaks kept ('\n' :: cs) = '\n' :: squeezeBreaks (kept + 1) cs := by
  rw [squeezeBreaks, if_pos (by decide), if_pos h]

theorem squeezeBreaks_drop {kept : Nat} (h : ¬ kept < 2) (cs : List Char) :
    squeezeBreaks kept ('\n' :: cs) = squeezeBreaks kept cs := by
  rw [squeezeBreaks, if_pos (by decide), if_neg h]

theorem squeezeBreaks_pieces (kept : Nat) (a b : List Char) :
    squeezeBreaks kept (a ++ b) = squeezeBreaks kept a ++ squeezeBreaks (breaksAfter kept a) b := by
  induction a generalizing kept with
  | nil => rfl
  | cons c a ih =>
    rw [List.cons_append, breaksAfter]
    by_cases hc : c = '\n'
    · subst hc
      by_cases hk : kept < 2
      · simp [squeezeBreaks_keep hk, hk, ih]
      · simp [squeezeBreaks_drop hk, hk, ih]
    · simp [squeezeBreaks_cons hc, hc, ih]

/-- Behind another character the count starts again. -/
theorem breaksAfter_of_last {s : List Char} {c : Char} (hlast : s.getLast? = some c) (hc : c ≠ '\n')
    (kept : Nat) : breaksAfter kept s = 0 := by
  obtain ⟨front, rfl⟩ := List.getLast?_eq_some_iff.mp hlast
  clear hlast
  induction front generalizing kept with
  | nil => rw [List.nil_append, breaksAfter, if_neg hc, breaksAfter]
  | cons d front ih => exact ih _

/-- Only the place of the breaks matters for how much is taken out. -/
theorem squeezeBreaks_length {a b : List Char} (h : a.map (· == '\n') = b.map (· == '\n'))
    (kept : Nat) : (squeezeBreaks kept a).length = (squeezeBreaks kept b).length := by
  induction a generalizing b kept with
  | nil =>
    obtain rfl : b = [] := by simpa using h.symm
    rfl
  | cons c a ih =>
    cases b with
    | nil => simp at h
    | cons d b =>
      rw [List.map_cons, List.map_cons, List.cons.injEq] at h
      rw [squeezeBreaks, squeezeBreaks, h.1]
      by_cases hd : (d == '\n') = true
      · rw [if_pos hd, if_pos hd]
        split
        · rw [List.length_cons, List.length_cons, ih h.2]
        · exact ih h.2 kept
      · rw [if_neg hd, if_neg hd, List.length_cons, List.length_cons, ih h.2]

theorem blanked_squeeze (kept : Nat) (cs : List Char) :
    blanked (squeezeBreaks kept cs) = squeezeBreaks kept (blanked cs) := by
  induction cs generalizing kept with
  | nil => rfl
  | cons c cs ih =>
    have hcons : ∀ c cs, blanked (c :: cs) = (if c = '\n' then c else ' ') :: blanked cs := by
      simp [blanked]
    by_cases hc : c = '\n'
    · subst hc
      by_cases hk : kept < 2
      · simp [squeezeBreaks_keep hk, hcons, ih]
      · simp [squeezeBreaks_drop hk, hcons, ih]
    · simp [squeezeBreaks_cons, hc, hcons, ih]

/-! ## Runs of breaks -/

/-- Three line breaks in a row, which squeezing does not leave. -/
abbrev Run : List Char := ['\n', '\n', '\n']

theorem squeezeBreaks_of_no_run {s : List Char} {kept : Nat} (hkept : kept ≤ 2)
    (h : ¬ Run <:+: List.replicate kept '\n' ++ s) : squeezeBreaks kept s = s := by
  induction s generalizing kept with
  | nil => rfl
  | cons c s ih =>
    by_cases hc : c = '\n'
    · subst hc
      have hk : kept < 2 := by
        refine Nat.lt_of_le_of_ne hkept ?_
        rintro rfl
        exact h ⟨[], s, rfl⟩
      rw [squeezeBreaks_keep hk, ih (by omega)]
      rwa [List.replicate_succ', List.append_assoc]
    · rw [squeezeBreaks_cons hc, ih (Nat.zero_le 2)]
      exact fun hin => h (hin.trans ((List.suffix_cons c s).trans (List.suffix_append _ _)).isInfix)

theorem no_run_squeezeBreaks {kept : Nat} (hkept : kept ≤ 2) (s : List Char) :
    ¬ Run <:+: List.replicate kept '\n' ++ squeezeBreaks kept s := by
  induction s generalizing kept with
  | nil =>
    intro h
    have hlength := h.length_le
    simp only [squeezeBreaks, List.append_nil, List.length_replicate, List.length_cons,
      List.length_nil] at hlength
    omega
  | cons c s ih =>
    by_cases hc : c = '\n'
    · subst hc
      by_cases hk : kept < 2
      · have hnext := @ih (kept + 1) (by omega)
        rwa [List.replicate_succ', List.append_assoc, List.singleton_append,
          ← squeezeBreaks_keep hk] at hnext
      · rw [squeezeBreaks_drop hk]
        exact ih hkept
    · rw [squeezeBreaks_cons hc]
      have hnext := ih (Nat.zero_le 2)
      rw [List.replicate_zero, List.nil_append] at hnext
      have hapart : ('\n' = c) = False := by simpa using Ne.symm hc
      have hcases : kept = 0 ∨ kept = 1 ∨ kept = 2 := by omega
      rcases hcases with rfl | rfl | rfl <;>
        simp [List.replicate, List.infix_cons_iff, List.cons_prefix_cons, hapart, hnext]

/-! ## Readers -/

section Readers

variable {p : Char → Bool}

theorem dropWhile_squeeze_breaks (hp : p '\n' = true) (kept : Nat) (cs : List Char) :
    (squeezeBreaks kept cs).dropWhile p = squeezeBreaks 0 (cs.dropWhile p) := by
  induction cs generalizing kept with
  | nil => rfl
  | cons c cs ih =>
    by_cases hc : c = '\n'
    · subst hc
      by_cases hk : kept < 2
      · simp [squeezeBreaks_keep hk, hp, ih]
      · simp [squeezeBreaks_drop hk, hp, ih]
    · by_cases hpc : p c = true
      · simp [squeezeBreaks_cons hc, hpc, ih]
      · simp [squeezeBreaks_cons hc, hpc]

theorem span_squeeze (hp : p '\n' = false) (cs : List Char) :
    (squeezeBreaks 0 cs).takeWhile p = cs.takeWhile p ∧
      (squeezeBreaks 0 cs).dropWhile p = squeezeBreaks 0 (cs.dropWhile p) := by
  induction cs with
  | nil => exact ⟨rfl, rfl⟩
  | cons c cs ih =>
    by_cases hc : c = '\n'
    · subst hc
      simp [squeezeBreaks_keep, hp]
    · by_cases hpc : p c = true
      · simp [squeezeBreaks_cons hc, hpc, ih]
      · simp [squeezeBreaks_cons hc, hpc]

end Readers

theorem head?_squeeze {kept : Nat} (hkept : kept < 2) (cs : List Char) :
    (squeezeBreaks kept cs).head? = cs.head? := by
  cases cs with
  | nil => rfl
  | cons c cs =>
    by_cases hc : c = '\n'
    · rw [hc, squeezeBreaks_keep hkept]
      rfl
    · rw [squeezeBreaks_cons hc]
      rfl

/-- A text with single breaks only is read in a squeezed text exactly where it stood before. -/
theorem dropText?_squeeze {expected : List Char} {kept : Nat} (hkept : kept < 2)
    (h : ¬ ['\n', '\n'] <:+: List.replicate kept '\n' ++ expected) (cs : List Char) :
    dropText? expected (squeezeBreaks kept cs) =
      (dropText? expected cs).map (squeezeBreaks (breaksAfter kept expected)) := by
  induction expected generalizing kept cs with
  | nil => cases cs <;> rfl
  | cons e expected ih =>
    cases cs with
    | nil => rfl
    | cons c cs =>
      have hmore : ¬ ['\n', '\n'] <:+: expected := fun hin =>
        h (hin.trans ((List.suffix_cons e expected).trans (List.suffix_append _ _)).isInfix)
      by_cases hc : c = '\n'
      · subst hc
        rw [squeezeBreaks_keep hkept, dropText?, dropText?]
        by_cases he : e = '\n'
        · subst he
          obtain rfl : kept = 0 := by
            refine Nat.lt_one_iff.mp (Nat.lt_of_le_of_ne (by omega) ?_)
            rintro rfl
            exact h ⟨[], expected, rfl⟩
          have hnext := @ih 1 (by omega) (by simpa using h) cs
          simpa [breaksAfter] using hnext
        · simp [he]
      · rw [squeezeBreaks_cons hc, dropText?, dropText?]
        by_cases he : e = c
        · subst he
          have hnext := @ih 0 (by omega) (by simpa using hmore) cs
          simpa [breaksAfter, hc] using hnext
        · simp [he]

/-- Code is read within lines. -/
theorem dropWord?_squeeze {expected : List Char} (hne : expected ≠ []) (h : '\n' ∉ expected)
    (cs : List Char) : dropText? expected (squeezeBreaks 0 cs) =
      (dropText? expected cs).map (squeezeBreaks 0) := by
  have hlast := List.getLast?_eq_some_getLast hne
  have hbreak : expected.getLast hne ≠ '\n' := fun he => h (he ▸ List.getLast_mem hne)
  rw [dropText?_squeeze (by omega) (fun hin => h (by simpa using hin.subset (a := '\n') (by simp))),
    breaksAfter_of_last hlast hbreak]

theorem skipBlanks_squeeze (kept : Nat) (cs : List Char) :
    skipBlanks (squeezeBreaks kept cs) = squeezeBreaks 0 (skipBlanks cs) :=
  dropWhile_squeeze_breaks (by decide) kept cs

theorem skipInlineBlanks_squeeze (cs : List Char) :
    skipInlineBlanks (squeezeBreaks 0 cs) = squeezeBreaks 0 (skipInlineBlanks cs) :=
  (span_squeeze (by decide) cs).2

theorem blanks?_squeeze (cs : List Char) :
    blanks? (squeezeBreaks 0 cs) = (blanks? cs).map (squeezeBreaks 0) := by
  rw [blanks?, blanks?, head?_squeeze (by omega), skipBlanks_squeeze]
  split <;> rfl

theorem word?_squeeze (cs : List Char) : word? (squeezeBreaks 0 cs) =
    (word? cs).map fun (word, rest) => (word, squeezeBreaks 0 rest) := by
  obtain ⟨htake, hdrop⟩ := span_squeeze (by decide : isWordChar '\n' = false) cs
  rw [word?, word?, head?_squeeze (by omega), htake, hdrop]
  split <;> rfl

theorem quote?_squeeze {kept : Nat} (hkept : kept < 2) (cs : List Char) :
    quote? isQuote (squeezeBreaks kept cs) = (quote? isQuote cs).map (squeezeBreaks 0) := by
  cases cs with
  | nil => rfl
  | cons c cs =>
    by_cases hc : c = '\n'
    · subst hc
      rw [squeezeBreaks_keep hkept]
      rfl
    · rw [squeezeBreaks_cons hc, quote?, quote?]
      split <;> rfl

theorem skipExport_squeeze (cs : List Char) :
    skipExport (squeezeBreaks 0 cs) = squeezeBreaks 0 (skipExport cs) := by
  rw [skipExport, skipExport, dropWord?_squeeze (by decide) (by decide)]
  cases dropText? "export".toList cs with
  | none => rfl
  | some rest =>
    rw [Option.map_some, Option.bind_some, Option.bind_some, blanks?_squeeze]
    cases blanks? rest <;> rfl

theorem constant?_squeeze (cs : List Char) : constant? (squeezeBreaks 0 cs) =
    (constant? cs).map fun (name, value) => (name, squeezeBreaks 0 value) := by
  simp only [constant?, Option.bind_eq_bind, skipInlineBlanks_squeeze, skipExport_squeeze,
    dropWord?_squeeze (by decide : "const".toList ≠ []) (by decide), blanks?_squeeze, word?_squeeze,
    skipBlanks_squeeze, dropWord?_squeeze (by decide : ['='] ≠ []) (by decide), Option.bind_map,
    Option.map_bind, Function.comp_def, Option.map_some]

theorem tableFunction?_squeeze (cs : List Char) :
    tableFunction? (squeezeBreaks 0 cs) = (tableFunction? cs).map (squeezeBreaks 0) := by
  have hname : ∀ name ∈ tableFunctions, name.toList ≠ [] ∧ '\n' ∉ name.toList := by decide
  unfold tableFunction?
  generalize tableFunctions = names at hname
  induction names with
  | nil => rfl
  | cons name names ih =>
    obtain ⟨hne, hline⟩ := hname name (by simp)
    rw [List.findSome?_cons, List.findSome?_cons, dropWord?_squeeze hne hline,
      ih fun n hn => hname n (List.mem_cons_of_mem _ hn)]
    cases dropText? name.toList cs <;> rfl

theorem openCall?_squeeze (cs : List Char) :
    openCall? (squeezeBreaks 0 cs) = (openCall? cs).map (squeezeBreaks 0) := by
  rw [openCall?, openCall?, skipBlanks_squeeze, dropWord?_squeeze (by decide) (by decide)]

section Name

variable {name : List Char} (hname : ¬ ['\n', '\n'] <:+: name)

include hname

omit hname in
theorem breaksAfter_lt {kept : Nat} (hkept : kept < 2)
    (h : ¬ ['\n', '\n'] <:+: List.replicate kept '\n' ++ name) : breaksAfter kept name < 2 := by
  induction name generalizing kept with
  | nil => exact hkept
  | cons c name ih =>
    have hmore : ¬ ['\n', '\n'] <:+: name := fun hin =>
      h (hin.trans ((List.suffix_cons c name).trans (List.suffix_append _ _)).isInfix)
    rw [breaksAfter]
    by_cases hc : c = '\n'
    · subst hc
      obtain rfl : kept = 0 := by
        refine Nat.lt_one_iff.mp (Nat.lt_of_le_of_ne (by omega) ?_)
        rintro rfl
        exact h ⟨[], name, rfl⟩
      exact ih (by decide) (by simpa using h)
    · rw [if_neg hc]
      exact ih (by decide) (by simpa using hmore)

theorem namedArgument?_squeeze (cs : List Char) :
    namedArgument? name (squeezeBreaks 0 cs) = (namedArgument? name cs).map (squeezeBreaks 0) := by
  have hlt : breaksAfter 0 name < 2 := breaksAfter_lt (by omega) (by simpa using hname)
  simp only [namedArgument?, Option.bind_eq_bind, openCall?_squeeze, skipBlanks_squeeze,
    quote?_squeeze (by omega : 0 < 2), dropText?_squeeze (by omega : 0 < 2) (by simpa using hname),
    quote?_squeeze hlt, Option.bind_map, Option.map_bind, Function.comp_def]

theorem tableDeclaration?_squeeze (cs : List Char) : tableDeclaration? name (squeezeBreaks 0 cs) =
    (tableDeclaration? name cs).map (squeezeBreaks 0) := by
  simp only [tableDeclaration?, Option.bind_eq_bind, constant?_squeeze, tableFunction?_squeeze,
    namedArgument?_squeeze hname, skipBlanks_squeeze, Option.bind_map, Option.map_bind,
    Function.comp_def, Option.map_some]

end Name

/-- What is found in a squeezed text is what is found in the text: squeezing only moves it. -/
theorem atLineStart?_squeeze {read : List Char → Option (List Char)}
    (hbreak : ∀ cs, read ('\n' :: cs) = none)
    (hread : ∀ cs, read (squeezeBreaks 0 cs) = (read cs).map (squeezeBreaks 0)) {kept : Nat}
    {lineStart : Bool} (hkept : 0 < kept → lineStart = true) (cs : List Char) :
    atLineStart? read lineStart (squeezeBreaks kept cs) =
      (atLineStart? read lineStart cs).map fun (offset, rest) =>
        ((squeezeBreaks kept (cs.take offset)).length, squeezeBreaks 0 rest) := by
  induction cs generalizing kept lineStart with
  | nil => rfl
  | cons c cs ih =>
    by_cases hc : c = '\n'
    · subst hc
      have hnone : ∀ cs, (if lineStart = true then read ('\n' :: cs) else none) = none := fun cs => by
        rw [hbreak, ite_self]
      rw [atLineStart?.eq_def _ _ ('\n' :: cs)]
      simp only [hnone, beq_self_eq_true, Option.map_map, Function.comp_def, List.take_succ_cons]
      by_cases hk : kept < 2
      · rw [squeezeBreaks_keep hk, atLineStart?.eq_def]
        simp only [hnone, beq_self_eq_true, @ih (kept + 1) true (fun _ => rfl), Option.map_map,
          Function.comp_def, squeezeBreaks_keep hk, List.length_cons]
      · obtain rfl : lineStart = true := hkept (by omega)
        simp only [squeezeBreaks_drop hk, @ih kept true (fun _ => rfl)]
    · have hflag : (c == '\n') = false := by simpa using hc
      have hhead : (if lineStart = true then read (c :: squeezeBreaks 0 cs) else none) =
          (if lineStart = true then read (c :: cs) else none).map (squeezeBreaks 0) := by
        split
        · rw [← squeezeBreaks_cons hc 0, hread]
        · rfl
      rw [squeezeBreaks_cons hc, atLineStart?, atLineStart?, hhead, hflag]
      cases (if lineStart = true then read (c :: cs) else none) with
      | some rest => rfl
      | none =>
        simp only [Option.map_none, @ih 0 false (by simp), Option.map_map, Function.comp_def,
          List.take_succ_cons, squeezeBreaks_cons hc, List.length_cons]

/-! ## Masking -/

/-- A literal closes where it did; one that may not run over a line never comes to a run of breaks. -/
theorem closeLiteral?_squeeze {q : Char} (hq : q ≠ '\n') {m : Bool} {kept : Nat}
    (hkept : m = true ∨ kept = 0) (cs : List Char) :
    closeLiteral? q m (squeezeBreaks kept cs) = (closeLiteral? q m cs).map fun (body, rest) =>
      (squeezeBreaks kept body, squeezeBreaks 0 rest) := by
  fun_induction closeLiteral? q m cs generalizing kept with
  | case1 => rfl
  | case2 => rfl
  | case3 c cs hc =>
    rw [beq_iff_eq.mp hc, squeezeBreaks_cons (by decide), squeezeBreaks_keep (by omega),
      closeLiteral?, if_pos (by decide), Option.map_none]
  | case4 c cs hc ih =>
    have hc' : c ≠ '\n' := by simpa using hc
    rw [squeezeBreaks_cons (by decide), squeezeBreaks_cons hc', closeLiteral?, if_neg hc,
      @ih 0 (.inr rfl), Option.map_map, Option.map_map]
    simp [Function.comp_def, squeezeBreaks_cons, hc']
  | case5 c cs hnil hesc hcq =>
    obtain rfl : c = q := beq_iff_eq.mp hcq
    rw [squeezeBreaks_cons hq, closeLiteral?_cons (ne_backslash hnil hesc), if_pos hcq]
    simp [squeezeBreaks, hq]
  | case6 c cs hnil hesc hcq hnl =>
    obtain ⟨rfl, rfl⟩ : c = '\n' ∧ m = false := by simpa using hnl
    obtain rfl : kept = 0 := hkept.resolve_left (by simp)
    rw [squeezeBreaks_keep (by omega), closeLiteral?_cons (by decide), if_neg hcq, if_pos hnl]
    rfl
  | case7 c cs hnil hesc hcq hnl ih =>
    by_cases hc : c = '\n'
    · subst hc
      obtain rfl : m = true := by simpa using hnl
      by_cases hk : kept < 2
      · rw [squeezeBreaks_keep hk, closeLiteral?_cons (by decide), if_neg hcq, if_neg hnl,
          ih (.inl rfl), Option.map_map, Option.map_map]
        simp [Function.comp_def, squeezeBreaks_keep hk]
      · rw [squeezeBreaks_drop hk, ih (.inl rfl), Option.map_map]
        simp [Function.comp_def, squeezeBreaks_drop hk]
    · rw [squeezeBreaks_cons hc, closeLiteral?_cons (ne_backslash hnil hesc), if_neg hcq, if_neg hnl,
        ih (.inr rfl), Option.map_map, Option.map_map]
      simp [Function.comp_def, squeezeBreaks_cons hc]

theorem closeComment?_squeeze (kept : Nat) (cs : List Char) :
    closeComment? (squeezeBreaks kept cs) = (closeComment? cs).map fun (body, rest) =>
      (squeezeBreaks kept body, squeezeBreaks 0 rest) := by
  fun_induction closeComment? cs generalizing kept with
  | case1 => rfl
  | case2 cs =>
    simp [closeComment?, squeezeBreaks]
  | case3 c cs hmark ih =>
    have hother : ∀ {d : Char} {ds : List Char}, (d = '*' → ∀ es, ds = '/' :: es → False) →
        closeComment? (d :: ds) = (closeComment? ds).map fun (body, rest) => (d :: body, rest) := by
      intro d ds h
      rw [closeComment?]
      intro es hd he
      exact h hd es he
    rw [Option.map_map]
    by_cases hc : c = '\n'
    · subst hc
      by_cases hk : kept < 2
      · rw [squeezeBreaks_keep hk, hother (fun hstar => absurd hstar (by decide)), ih, Option.map_map]
        simp [Function.comp_def, squeezeBreaks_keep hk]
      · rw [squeezeBreaks_drop hk, ih]
        simp [Function.comp_def, squeezeBreaks_drop hk]
    · rw [squeezeBreaks_cons hc, hother, ih, Option.map_map]
      · simp [Function.comp_def, squeezeBreaks_cons hc]
      · intro hstar es he
        have hhead := head?_squeeze (by omega : 0 < 2) cs
        rw [he, List.head?_cons] at hhead
        obtain ⟨ds, rfl⟩ := List.head?_eq_some_iff.mp hhead.symm
        exact hmark ds hstar rfl

/-- The lexeme with its line breaks squeezed. -/
def Lexeme.squeezed : Lexeme → Lexeme
  | .char c => .char c
  | .literal cs => .literal (squeezeBreaks 0 cs)
  | .comment cs => .comment (squeezeBreaks 0 cs)

theorem next_squeeze {c : Char} (hc : c ≠ '\n') (cs : List Char) : next c (squeezeBreaks 0 cs) =
    ((next c cs).1.squeezed, squeezeBreaks 0 (next c cs).2) := by
  by_cases hquote : isQuote c = true
  · simp only [next, hquote, if_true, closeLiteral?_squeeze hc (.inr rfl)]
    cases closeLiteral? c (isMultiline c) cs with
    | none => rfl
    | some parts => simp [Lexeme.squeezed, squeezeBreaks_cons hc]
  · by_cases hslash : c = '/'
    · subst hslash
      cases cs with
      | nil => simp [squeezeBreaks, next, isQuote, Lexeme.squeezed]
      | cons d cs =>
        by_cases hd : d = '\n'
        · subst hd
          simp [squeezeBreaks_keep, next, isQuote, Lexeme.squeezed]
        · rw [squeezeBreaks_cons hd]
          by_cases h1 : d = '/'
          · subst h1
            obtain ⟨htake, hdrop⟩ := span_squeeze (p := (· != '\n')) (by decide) cs
            have hline : ¬ Run <:+: cs.takeWhile (· != '\n') := fun hin => by
              have hmem := hin.subset (a := '\n') (by simp)
              simpa using List.all_eq_true.mp (List.all_takeWhile (p := (· != '\n')) (l := cs)) _ hmem
            have hsame := squeezeBreaks_of_no_run (Nat.zero_le 2) (by simpa using hline)
            simp [next, isQuote, Lexeme.squeezed, htake, hdrop, squeezeBreaks_cons, hsame]
          · by_cases h2 : d = '*'
            · subst h2
              simp only [next, isQuote, blockComment, closeComment?_squeeze]
              cases closeComment? cs <;>
                simp [Lexeme.squeezed, squeezeBreaks_cons]
            · simp [next, isQuote, h1, h2, Lexeme.squeezed, squeezeBreaks_cons hd]
    · simp [next, hquote, hslash, Lexeme.squeezed]

theorem closeLiteral?_suffix {q : Char} {m : Bool} {cs body rest : List Char}
    (h : closeLiteral? q m cs = some (body, rest)) : [q] <:+ body := by
  fun_induction closeLiteral? q m cs generalizing body rest with
  | case1 | case2 | case3 | case6 => cases h
  | case4 c cs hc ih =>
    obtain ⟨⟨body', rest'⟩, hb, he⟩ := Option.map_eq_some_iff.mp h
    cases he
    exact (ih hb).trans ((List.suffix_cons c body').trans (List.suffix_cons '\\' _))
  | case5 c cs hnil hesc hcq =>
    cases h
    obtain rfl := beq_iff_eq.mp hcq
    exact List.suffix_refl [c]
  | case7 c cs hnil hesc hcq hnl ih =>
    obtain ⟨⟨body', rest'⟩, hb, he⟩ := Option.map_eq_some_iff.mp h
    cases he
    exact (ih hb).trans (List.suffix_cons c body')

theorem next_literal {c : Char} {cs text rest : List Char} (h : next c cs = (.literal text, rest)) :
    [c] <:+ text := by
  unfold next at h
  split at h
  · split at h
    · rename_i body rest' hclose
      cases h
      exact (closeLiteral?_suffix hclose).trans (List.suffix_cons c body)
    · cases h
  · unfold blockComment at h
    split at h
    · cases h
    · split at h <;> cases h
    · cases h

/-- No lexeme ends in a break that does not start with one. -/
theorem next_last {c : Char} (hc : c ≠ '\n') (cs : List Char) :
    ∃ d, (next c cs).1.text.getLast? = some d ∧ d ≠ '\n' := by
  rcases next_cases c cs with he | ⟨body, rest, -, he⟩ | ⟨body, rest, rfl, -, he, hbody⟩
  · exact ⟨c, by rw [he]; rfl, hc⟩
  · obtain ⟨front, htext⟩ := next_literal he
    exact ⟨c, by rw [he, Lexeme.text, ← htext, List.getLast?_concat], hc⟩
  · rw [he, Lexeme.text]
    rcases hbody with hline | ⟨front, rfl⟩
    · refine ⟨_, List.getLast?_eq_some_getLast (List.cons_ne_nil '/' body), fun hlast => ?_⟩
      have hmem := List.getLast_mem (List.cons_ne_nil '/' body)
      rw [hlast] at hmem
      exact hline (by simpa using hmem)
    · exact ⟨'/', List.getLast?_eq_some_iff.mpr ⟨'/' :: (front ++ ['*']), by simp⟩, by decide⟩

theorem breaksAfter_congr {a b : List Char} (h : a.map (· == '\n') = b.map (· == '\n'))
    (kept : Nat) : breaksAfter kept a = breaksAfter kept b := by
  induction a generalizing b kept with
  | nil =>
    obtain rfl : b = [] := by simpa using h.symm
    rfl
  | cons c a ih =>
    cases b with
    | nil => simp at h
    | cons d b =>
      rw [List.map_cons, List.map_cons, List.cons.injEq] at h
      have hsame : c = '\n' ↔ d = '\n' := by rw [← beq_iff_eq, h.1, beq_iff_eq]
      simp only [breaksAfter, hsame, ih h.2]

/-- A lexeme squeezed and then masked is masked and then squeezed. -/
theorem Lexeme.masked_squeezed {l : Lexeme} {c : Char} (hhead : l.text.head? = some c) (hc : c ≠ '\n')
    (kept : Nat) : l.squeezed.masked = squeezeBreaks kept l.masked := by
  have hany : ∀ {d : Char} {cs : List Char}, d ≠ '\n' →
      squeezeBreaks 0 (d :: cs) = squeezeBreaks kept (d :: cs) := fun hd => by
    rw [squeezeBreaks_cons hd, squeezeBreaks_cons hd]
  obtain ⟨cs, htext⟩ := List.head?_eq_some_iff.mp hhead
  cases l with
  | char d =>
    obtain ⟨rfl, rfl⟩ := List.cons.inj htext
    exact (squeezeBreaks_cons hc kept []).symm
  | literal text =>
    obtain rfl : text = c :: cs := htext
    exact hany hc
  | comment text =>
    obtain rfl : text = c :: cs := htext
    have hcons : blanked (c :: cs) = ' ' :: blanked cs := by simp [blanked, hc]
    refine (blanked_squeeze 0 (c :: cs)).trans ?_
    change squeezeBreaks 0 (blanked (c :: cs)) = squeezeBreaks kept (blanked (c :: cs))
    rw [hcons]
    exact hany (by decide)

/-- Comments are blanked out where they were. -/
theorem mask_squeeze (kept : Nat) (cs : List Char) :
    mask (squeezeBreaks kept cs) = squeezeBreaks kept (mask cs) := by
  induction hk : cs.length using Nat.strongRecOn generalizing kept cs with
  | ind k ih =>
    subst hk
    cases cs with
    | nil => rw [mask_nil, squeezeBreaks, mask_nil]
    | cons c cs =>
      have hrest : (next c cs).2.length < (c :: cs).length := Nat.lt_succ_of_le (next_length c cs)
      by_cases hc : c = '\n'
      · subst hc
        have hnext : ∀ cs, next '\n' cs = (.char '\n', cs) := fun cs => by simp [next, isQuote]
        have hmask : ∀ cs, mask ('\n' :: cs) = '\n' :: mask cs := fun cs => by
          rw [mask_cons, hnext]
          rfl
        rw [hmask]
        by_cases hk : kept < 2
        · rw [squeezeBreaks_keep hk, squeezeBreaks_keep hk, hmask, ih _ (by simp) _ _ rfl]
        · rw [squeezeBreaks_drop hk, squeezeBreaks_drop hk, ih _ (by simp) _ _ rfl]
      · obtain ⟨d, hlast, hd⟩ := next_last hc cs
        have hhead : (next c cs).1.text.head? = some c := by
          have htext := congrArg List.head? (next_text c cs)
          have hne : (next c cs).1.text ≠ [] := by
            intro he
            rw [he] at hlast
            cases hlast
          rwa [head?_append_of_ne hne] at htext
        have hafter : breaksAfter kept (next c cs).1.masked = 0 := by
          rw [breaksAfter_congr (next c cs).1.masked_breaks]
          exact breaksAfter_of_last hlast hd kept
        rw [squeezeBreaks_cons hc, mask_cons, mask_cons, next_squeeze hc, squeezeBreaks_pieces, hafter,
          ih _ hrest _ _ rfl, Lexeme.masked_squeezed hhead hc]

end SchemaScaffold.Source
