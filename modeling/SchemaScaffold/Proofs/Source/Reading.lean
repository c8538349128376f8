import SchemaScaffold.Proofs.Naming.Spellings
import SchemaScaffold.Proofs.Source.Masking
import SchemaScaffold.Source.Bracket
import SchemaScaffold.Text.Quoted

/-!
Reading generated code character by character. Generated code has no comments, and its only literals
are double-quoted ones that close on their line; so three modes and the stack of awaited brackets
tell how a text goes on. Texts are read piece by piece, and a piece that is read from code to code
with its brackets closed is passed over by masking and by bracket matching, whatever follows it.
-/

namespace SchemaScaffold.Source

open Text Naming

/-- Where a reader stands: in code, in a literal, or after a backslash in a literal. -/
inductive Mode
  | code | literal | escape
  deriving DecidableEq

/-- The awaited closers, innermost first, and the mode. -/
abbrev Reader := List Char × Mode

/-- One character of generated code. -/
def step : Reader → Char → Option Reader
  | (awaited, .code), c =>
    if c == '"' then some (awaited, .literal)
    else if isQuote c || c == '/' then none
    else
      match closer? c with
      | some close => some (close :: awaited, .code)
      | none =>
        if isCloser c then
          match awaited with
          | [] => none
          | expected :: outer => if expected == c then some (outer, .code) else none
        else some (awaited, .code)
  | (awaited, .literal), c =>
    if c == '\\' then some (awaited, .escape)
    else if c == '"' then some (awaited, .code)
    else if c == '\n' then none
    else some (awaited, .literal)
  | (awaited, .escape), c => if c == '\n' then none else some (awaited, .literal)

/-- Reading `s` leads from one state to the other. -/
def Reads (r : Reader) (s : List Char) (r' : Reader) : Prop := s.foldlM step r = some r'

/-- A text that reads from code to code, and closes every bracket that it opens. -/
def Inline (s : List Char) : Prop := Reads ([], .code) s ([], .code)

instance (r r' : Reader) (s : List Char) : Decidable (Reads r s r') :=
  inferInstanceAs (Decidable (_ = _))

instance (s : List Char) : Decidable (Inline s) := inferInstanceAs (Decidable (_ = _))

theorem Reads.of_eq {r r' : Reader} {s : List Char} (h : s.foldlM step r = some r') : Reads r s r' :=
  h

theorem Reads.nil (r : Reader) : Reads r [] r := rfl

theorem Reads.append {r r' r'' : Reader} {s t : List Char} (hs : Reads r s r')
    (ht : Reads r' t r'') : Reads r (s ++ t) r'' := by
  unfold Reads at hs ht ⊢
  rw [List.foldlM_append, hs]
  exact ht

theorem Reads.cons_iff {r r' : Reader} {c : Char} {s : List Char} :
    Reads r (c :: s) r' ↔ ∃ m, step r c = some m ∧ Reads m s r' := by
  unfold Reads
  rw [List.foldlM_cons]
  exact Option.bind_eq_some_iff

/-- A text none of whose characters leads anywhere else. -/
theorem Reads.of_forall {r : Reader} {s : List Char} (h : ∀ c ∈ s, step r c = some r) :
    Reads r s r := by
  induction s with
  | nil => exact .nil r
  | cons c s ih =>
    rw [Reads.cons_iff]
    exact ⟨r, h c (by simp), ih fun d hd => h d (List.mem_cons_of_mem _ hd)⟩

/-- Pieces that lead nowhere else, with separators that lead nowhere else between them. -/
theorem Reads.intercalate {r : Reader} {separator : List Char} {pieces : List (List Char)}
    (hseparator : Reads r separator r) (h : ∀ piece ∈ pieces, Reads r piece r) :
    Reads r (separator.intercalate pieces) r := by
  induction pieces with
  | nil => exact .nil r
  | cons piece pieces ih =>
    have ih := ih fun p hp => h p (List.mem_cons_of_mem _ hp)
    cases pieces with
    | nil => simpa using h piece (by simp)
    | cons piece' pieces =>
      rw [List.intercalate_cons_cons]
      exact ((h piece (by simp)).append hseparator).append ih

theorem Inline.append {s t : List Char} (hs : Inline s) (ht : Inline t) : Inline (s ++ t) :=
  Reads.append hs ht

/-- More brackets may be awaited outside. -/
theorem Reads.frame {r r' : Reader} {s : List Char} (h : Reads r s r') (outer : List Char) :
    Reads (r.1 ++ outer, r.2) s (r'.1 ++ outer, r'.2) := by
  have hstep : ∀ {r m : Reader} {c : Char}, step r c = some m →
      step (r.1 ++ outer, r.2) c = some (m.1 ++ outer, m.2) := by
    intro r m c h
    obtain ⟨awaited, mode⟩ := r
    cases mode with
    | code =>
      simp only [step] at h ⊢
      split at h
      · cases h; simp [*]
      · split at h
        · cases h
        · split at h
          · cases h; simp [*]
          · split at h
            · cases awaited with
              | nil => cases h
              | cons expected awaited =>
                obtain ⟨he, rfl⟩ : (expected == c) = true ∧ (awaited, Mode.code) = m := by simpa using h
                simp [*]
            · cases h; simp [*]
    | literal =>
      simp only [step] at h ⊢
      split at h
      · cases h; simp [*]
      · split at h
        · cases h; simp [*]
        · split at h
          · cases h
          · cases h; simp [*]
    | escape =>
      simp only [step] at h ⊢
      split at h
      · cases h
      · cases h; simp [*]
  induction s generalizing r with
  | nil => cases h; rfl
  | cons c s ih =>
    obtain ⟨m, hm, h⟩ := Reads.cons_iff.mp h
    exact Reads.cons_iff.mpr ⟨_, hstep hm, ih h⟩

/-- The characters of names lead nowhere else in code. -/
theorem reads_name {awaited s : List Char} (h : ∀ c ∈ s, isNameChar c = true) :
    Reads (awaited, .code) s (awaited, .code) := by
  apply Reads.of_forall
  intro c hc
  obtain ⟨h1, h2, h3, h4⟩ := nameChar_forall (p := fun c => (c == '"') = false ∧
    (isQuote c || c == '/') = false ∧ closer? c = none ∧ isCloser c = false) (by decide) (h c hc)
  simp [step, h1, h2, h3, h4]

/-- The characters of table and column names lead nowhere else in a literal. -/
theorem reads_snake {awaited s : List Char} (h : ∀ c ∈ s, isSnakeChar c = true) :
    Reads (awaited, .literal) s (awaited, .literal) := by
  apply Reads.of_forall
  intro c hc
  obtain ⟨h1, h2, h3⟩ := nameChar_forall (p := fun c => isSnakeChar c = true →
    (c == '\\') = false ∧ (c == '"') = false ∧ (c == '\n') = false) (by decide)
    (isNameChar_of_isSnakeChar (h c hc)) (h c hc)
  simp [step, h1, h2, h3]

theorem reads_hexDigit {awaited : List Char} (n : Nat) (hn : n < 16) :
    Reads (awaited, .literal) [hexDigit n] (awaited, .literal) := by
  have hall : ∀ n : Fin 16, hexDigit n ≠ '\\' ∧ hexDigit n ≠ '"' ∧ hexDigit n ≠ '\n' := by decide
  obtain ⟨h1, h2, h3⟩ := hall ⟨n, hn⟩
  simp [Reads, step, h1, h2, h3]

/-- However a character is written in a literal, the literal goes on after it. -/
theorem reads_jsonChar {awaited : List Char} (c : Char) :
    Reads (awaited, .literal) (jsonChar c) (awaited, .literal) := by
  unfold jsonChar
  split
  iterate 7 rfl
  · rename_i h1 h2 h3 _ _ _ _
    split
    · refine Reads.append (s := ['\\', 'u']) (.of_eq rfl) ?_
      refine Reads.append (s := [_]) (reads_hexDigit _ (by omega)) ?_
      refine Reads.append (s := [_]) (reads_hexDigit _ (by omega)) ?_
      refine Reads.append (s := [_]) (reads_hexDigit _ (by omega)) ?_
      exact reads_hexDigit _ (by omega)
    · simp [Reads, step, show c ≠ '"' from h1, show c ≠ '\\' from h2, show c ≠ '\n' from h3]

theorem reads_jsonLiteral {awaited : List Char} (s : String) :
    Reads (awaited, .code) (jsonLiteral s).toList (awaited, .code) := by
  have hbody : ∀ cs : List Char,
      Reads (awaited, .literal) (cs.flatMap jsonChar) (awaited, .literal) := by
    intro cs
    induction cs with
    | nil => exact .nil _
    | cons c cs ih => exact (reads_jsonChar c).append ih
  rw [jsonLiteral, String.toList_ofList]
  exact Reads.append (s := ['"']) rfl ((hbody s.toList).append rfl)

/-! ## What is passed over -/

/-- The rest of a literal, from a reader inside it: it closes on its line. -/
theorem Reads.closes {awaited awaited' s : List Char}
    (h : Reads (awaited, .literal) s (awaited', .code)) :
    ∃ body s', s = body ++ s' ∧ Reads (awaited, .code) s' (awaited', .code) ∧ ∀ rest,
      closeLiteral? '"' false (s ++ rest) = some (body, s' ++ rest) ∧
        skipString? '"' (s ++ rest) = some (s' ++ rest) := by
  match s with
  | [] => cases h
  | c :: s =>
    obtain ⟨m, hm, h⟩ := Reads.cons_iff.mp h
    by_cases hesc : c = '\\'
    · subst hesc
      cases hm
      match s with
      | [] => cases h
      | d :: s =>
        obtain ⟨m, hm, h⟩ := Reads.cons_iff.mp h
        by_cases hd : d = '\n'
        · simp [step, hd] at hm
        · simp only [step, beq_iff_eq, hd, if_false, Option.some.injEq] at hm
          subst hm
          obtain ⟨body, s', rfl, hs, hclose⟩ := h.closes
          refine ⟨'\\' :: d :: body, s', rfl, hs, fun rest => ?_⟩
          obtain ⟨h1, h2⟩ := hclose rest
          rw [List.append_assoc] at h1 h2
          exact ⟨by simp [closeLiteral?, hd, h1], by simp [skipString?, h2]⟩
    · by_cases hq : c = '"'
      · subst hq
        simp only [step, beq_iff_eq, hesc, if_false, beq_self_eq_true, if_true,
          Option.some.injEq] at hm
        subst hm
        exact ⟨['"'], s, rfl, h, fun rest => ⟨by simp [closeLiteral?], by simp [skipString?]⟩⟩
      · by_cases hn : c = '\n'
        · simp [step, hn] at hm
        · simp only [step, beq_iff_eq, hesc, hq, hn, if_false, Option.some.injEq] at hm
          subst hm
          obtain ⟨body, s', rfl, hs, hclose⟩ := h.closes
          refine ⟨c :: body, s', rfl, hs, fun rest => ?_⟩
          obtain ⟨h1, h2⟩ := hclose rest
          refine ⟨?_, ?_⟩
          · rw [List.cons_append, closeLiteral?_cons hesc, h1]
            simp [hq, hn]
          · rw [List.cons_append, skipString?, h2]
            · simp [hq, hn]
            · exact fun he _ => hesc he
            · exact fun _ _ he _ => hesc he

/-- What one character of code does. -/
theorem step_code {awaited : List Char} {c : Char} {m : Reader}
    (h : step (awaited, .code) c = some m) : (c = '"' ∧ m = (awaited, .literal)) ∨
      (isQuote c = false ∧ c ≠ '/' ∧
        ((∃ close, closer? c = some close ∧ m = (close :: awaited, .code)) ∨
          (closer? c = none ∧ isCloser c = true ∧ ∃ outer, awaited = c :: outer ∧ m = (outer, .code)) ∨
          (closer? c = none ∧ isCloser c = false ∧ m = (awaited, .code)))) := by
  simp only [step] at h
  split at h
  · rename_i hq
    exact .inl ⟨by simpa using hq, by simpa using h.symm⟩
  · split at h
    · cases h
    · rename_i hplain
      simp only [Bool.or_eq_true, beq_iff_eq, not_or, Bool.not_eq_true] at hplain
      refine .inr ⟨hplain.1, hplain.2, ?_⟩
      split at h
      · rename_i close hclose
        exact .inl ⟨close, hclose, by simpa using h.symm⟩
      · rename_i hclose
        split at h
        · rename_i hcloser
          cases awaited with
          | nil => cases h
          | cons expected outer =>
            obtain ⟨rfl, rfl⟩ : expected = c ∧ (outer, Mode.code) = m := by simpa using h
            exact .inr (.inl ⟨hclose, hcloser, outer, rfl, rfl⟩)
        · rename_i hcloser
          exact .inr (.inr ⟨hclose, by simpa using hcloser, by simpa using h.symm⟩)

theorem mask_reads {awaited awaited' : List Char} : ∀ {s : List Char},
    Reads (awaited, .code) s (awaited', .code) → ∀ rest, mask (s ++ rest) = s ++ mask rest
  | [], _, rest => rfl
  | c :: s, h, rest => by
    obtain ⟨m, hm, h⟩ := Reads.cons_iff.mp h
    rw [List.cons_append, mask_cons]
    rcases step_code hm with ⟨rfl, rfl⟩ | ⟨hquote, hslash, hcases⟩
    · obtain ⟨body, s', rfl, hs, hclose⟩ := h.closes
      have hnext : next '"' (body ++ s' ++ rest) = (.literal ('"' :: body), s' ++ rest) := by
        simp only [next, isQuote, isMultiline]
        rw [show ('"' == '\x60') = false from rfl, (hclose rest).1]
        rfl
      rw [hnext, mask_reads hs]
      simp [Lexeme.masked, Lexeme.text]
    · obtain ⟨awaited'', rfl⟩ : ∃ awaited'', m = (awaited'', .code) := by
        rcases hcases with ⟨_, _, rfl⟩ | ⟨_, _, _, _, rfl⟩ | ⟨_, _, rfl⟩ <;> exact ⟨_, rfl⟩
      have hnext : next c (s ++ rest) = (.char c, s ++ rest) := by
        simp [next, hquote, hslash]
      rw [hnext, mask_reads h]
      rfl
termination_by s => s.length
decreasing_by
  all_goals subst_vars
  all_goals simp only [List.length_cons, List.length_append]
  all_goals omega

/-- Generated code holds no comments, so it stays in sight. -/
theorem mask_inline {s : List Char} (h : Inline s) (rest : List Char) :
    mask (s ++ rest) = s ++ mask rest :=
  mask_reads h rest

/-- A literal is skipped as a whole. -/
theorem closeBlock_quote (awaited : List Char) {quote : Char} (hquote : isQuote quote = true)
    {cs rest : List Char} (h : skipString? quote cs = some rest) :
    closeBlock awaited (quote :: cs) = closeBlock awaited rest := by
  rw [closeBlock.eq_def]
  simp only [hquote, if_true]
  split
  · rename_i hnone
    rw [h] at hnone
    cases hnone
  · rename_i rest' hrest
    rw [h] at hrest
    cases hrest
    rfl

theorem closeBlock_code (awaited cs : List Char) {c : Char} (hquote : isQuote c = false)
    (hslash : c ≠ '/') : closeBlock awaited (c :: cs) =
      match closer? c with
      | some close => closeBlock (close :: awaited) cs
      | none =>
        if isCloser c then
          match awaited with
          | [] => .error (.unbalanced c)
          | expected :: outer =>
            if expected != c then .error (.unbalanced c)
            else if outer.isEmpty then .ok cs
            else closeBlock outer cs
        else closeBlock awaited cs := by
  have hread := closeBlock.eq_def awaited (c :: cs)
  simp only [hquote, Bool.false_eq_true, if_false, beq_iff_eq, hslash, Bool.and_eq_true,
    false_and] at hread
  exact hread

theorem closeBlock_reads {awaited awaited' outer : List Char} (hne : outer ≠ []) :
    ∀ {s : List Char}, Reads (awaited, .code) s (awaited', .code) → ∀ rest,
      closeBlock (awaited ++ outer) (s ++ rest) = closeBlock (awaited' ++ outer) rest
  | [], h, rest => by cases h; rfl
  | c :: s, h, rest => by
    obtain ⟨m, hm, h⟩ := Reads.cons_iff.mp h
    rw [List.cons_append]
    rcases step_code hm with ⟨rfl, rfl⟩ | ⟨hquote, hslash, hcases⟩
    · obtain ⟨body, s', rfl, hs, hclose⟩ := h.closes
      rw [closeBlock_quote _ rfl (hclose rest).2, closeBlock_reads hne hs]
    · rw [closeBlock_code _ _ hquote hslash]
      rcases hcases with ⟨close, hclose, rfl⟩ | ⟨hclose, hcloser, inner, rfl, rfl⟩ | ⟨hclose, hcloser, rfl⟩
      · simp only [hclose]
        rw [← List.cons_append, closeBlock_reads hne h]
      · simp [hclose, hcloser, hne, closeBlock_reads hne h]
      · simp only [hclose, hcloser, Bool.false_eq_true, if_false]
        rw [closeBlock_reads hne h]
termination_by s => s.length
decreasing_by
  all_goals subst_vars
  all_goals simp only [List.length_cons, List.length_append]
  all_goals omega

/-- The block of a pair of parentheses around generated code ends with them. -/
theorem closeBlock_inline {s : List Char} (h : Inline s) (rest : List Char) :
    closeBlock [] ('(' :: (s ++ ')' :: rest)) = .ok rest := by
  rw [closeBlock_code _ _ rfl (by decide)]
  have hread : closeBlock [')'] (s ++ ')' :: rest) = closeBlock [')'] (')' :: rest) :=
    closeBlock_reads (by simp) h _
  simp only [closer?, hread]
  rw [closeBlock_code _ _ rfl (by decide)]
  rfl

theorem mask_inline_self {s : List Char} (h : Inline s) : mask s = s := by
  simpa using mask_inline h []

end SchemaScaffold.Source
