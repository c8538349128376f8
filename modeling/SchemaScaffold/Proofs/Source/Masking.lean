import SchemaScaffold.Source.Lexeme

/-!
What masking leaves in sight. A comment that starts in one text can reach into the next only through
a block comment that ends there, and a literal only through a closing backtick. So a text that ends
its last line and leaves neither open is masked on its own, whatever follows it; and a line without
a slash stays in sight behind any text, as long as no block comment can end after it.
-/

namespace SchemaScaffold.Source

open Text

/-- A text that is empty or ends in a line break. -/
def EndsLine (cs : List Char) : Prop := ∀ c, cs.getLast? = some c → c = '\n'

instance (cs : List Char) : Decidable (EndsLine cs) :=
  decidable_of_iff (cs.getLast?.all (· == '\n') = true)
    (by simp only [EndsLine, Option.all_eq_true, beq_iff_eq])

theorem endsLine_nil : EndsLine [] := by
  intro c h
  simp at h

theorem endsLine_concat (cs : List Char) : EndsLine (cs ++ ['\n']) := by
  intro c h
  simpa using h.symm

theorem EndsLine.right {a b : List Char} (h : EndsLine (a ++ b)) : EndsLine b := by
  intro c hc
  apply h c
  rw [List.getLast?_append, hc]
  rfl

theorem EndsLine.tail {c : Char} {cs : List Char} (h : EndsLine (c :: cs)) : EndsLine cs :=
  EndsLine.right (a := [c]) h

theorem EndsLine.append {a b : List Char} (ha : EndsLine a) (hb : EndsLine b) :
    EndsLine (a ++ b) := by
  intro c hc
  rw [List.getLast?_append, Option.or_eq_some_iff] at hc
  rcases hc with hc | ⟨-, hc⟩
  · exact hb c hc
  · exact ha c hc

theorem EndsLine.mem {cs : List Char} (h : EndsLine cs) (hne : cs ≠ []) : '\n' ∈ cs := by
  have hlast := List.getLast?_eq_some_getLast hne
  rw [← h _ hlast]
  exact List.getLast_mem hne

/-- What follows a character that is no line break goes on at least to the end of the line. -/
theorem EndsLine.mem_tail {c : Char} {cs : List Char} (h : EndsLine (c :: cs)) (hc : c ≠ '\n') :
    '\n' ∈ cs :=
  (List.mem_cons.mp (h.mem (by simp))).resolve_left fun he => hc he.symm

/-! ## The closing mark of a literal or a comment, when more text follows -/

theorem ne_backslash {c : Char} {cs : List Char} (hnil : c = '\\' → cs = [] → False)
    (hcons : ∀ d ds, c = '\\' → cs = d :: ds → False) : c ≠ '\\' := by
  intro hc
  cases cs with
  | nil => exact hnil hc rfl
  | cons d ds => exact hcons d ds hc rfl

theorem closeLiteral?_cons {q : Char} {m : Bool} {c : Char} (hc : c ≠ '\\') (cs : List Char) :
    closeLiteral? q m (c :: cs) =
      if c == q then some ([c], cs)
      else if c == '\n' && !m then none
      else (closeLiteral? q m cs).map fun (body, rest) => (c :: body, rest) := by
  rw [closeLiteral?]
  · exact fun he _ => hc he
  · exact fun _ _ he _ => hc he

theorem closeLiteral?_append_some {q : Char} {m : Bool} {cs body rest : List Char}
    (h : closeLiteral? q m cs = some (body, rest)) (b : List Char) :
    closeLiteral? q m (cs ++ b) = some (body, rest ++ b) := by
  fun_induction closeLiteral? q m cs generalizing body rest with
  | case1 => simp at h
  | case2 => simp at h
  | case3 => simp at h
  | case4 c cs hc ih =>
    obtain ⟨⟨body', rest'⟩, hb, he⟩ := Option.map_eq_some_iff.mp h
    cases he
    simp [closeLiteral?, hc, ih hb]
  | case5 c cs hnil hesc hq =>
    cases h
    rw [List.cons_append, closeLiteral?_cons (ne_backslash hnil hesc), if_pos hq]
  | case6 => simp at h
  | case7 c cs hnil hesc hq hnl ih =>
    obtain ⟨⟨body', rest'⟩, hb, he⟩ := Option.map_eq_some_iff.mp h
    cases he
    rw [List.cons_append, closeLiteral?_cons (ne_backslash hnil hesc), if_neg hq, if_neg hnl, ih hb]
    rfl

/-- A literal that does not close goes on unclosed over a text without its quote. -/
theorem closeLiteral?_append_none {q : Char} {m : Bool} {cs b : List Char}
    (h : closeLiteral? q m cs = none) (hb : q ∉ b) : closeLiteral? q m (cs ++ b) = none := by
  have hnone : ∀ b, q ∉ b → closeLiteral? q m b = none := by
    intro b hb
    fun_induction closeLiteral? q m b <;> simp_all
  fun_induction closeLiteral? q m cs with
  | case1 => exact hnone b hb
  | case2 =>
    cases b with
    | nil => rfl
    | cons c b =>
      rw [List.cons_append, List.nil_append, closeLiteral?]
      split
      · rfl
      · simp [hnone b fun hq => hb (List.mem_cons_of_mem _ hq)]
  | case3 c cs hc => simp [closeLiteral?, hc]
  | case4 c cs hc ih => simp_all [closeLiteral?]
  | case5 => simp at h
  | case6 c cs hnil hesc hq hnl =>
    rw [List.cons_append, closeLiteral?_cons (ne_backslash hnil hesc), if_neg hq, if_pos hnl]
  | case7 c cs hnil hesc hq hnl ih =>
    rw [List.cons_append, closeLiteral?_cons (ne_backslash hnil hesc), if_neg hq, if_neg hnl,
      ih (Option.map_eq_none_iff.mp h)]
    rfl

/-- A literal of one line that does not close by the end of its line never closes. -/
theorem closeLiteral?_line_none {q : Char} {cs : List Char}
    (h : closeLiteral? q false cs = none) (hline : '\n' ∈ cs) (b : List Char) :
    closeLiteral? q false (cs ++ b) = none := by
  fun_induction closeLiteral? q false cs with
  | case1 => simp at hline
  | case2 => simp at hline
  | case3 c cs hc => simp [closeLiteral?, hc]
  | case4 c cs hc ih =>
    have hcs : '\n' ∈ cs := by
      have hc' : '\n' ≠ c := fun he => hc (by simp [← he])
      simpa [hc'] using hline
    simp [closeLiteral?, hc, ih (Option.map_eq_none_iff.mp h) hcs]
  | case5 => simp at h
  | case6 c cs hnil hesc hcq hnl =>
    rw [List.cons_append, closeLiteral?_cons (ne_backslash hnil hesc), if_neg hcq, if_pos hnl]
  | case7 c cs hnil hesc hcq hnl ih =>
    have hc : c ≠ '\n' := by simpa using hnl
    rw [List.cons_append, closeLiteral?_cons (ne_backslash hnil hesc), if_neg hcq, if_neg hnl,
      ih (Option.map_eq_none_iff.mp h) ((List.mem_cons.mp hline).resolve_left (Ne.symm hc))]
    rfl

theorem closeComment?_append_some {cs body rest : List Char}
    (h : closeComment? cs = some (body, rest)) (b : List Char) :
    closeComment? (cs ++ b) = some (body, rest ++ b) := by
  fun_induction closeComment? cs generalizing body rest with
  | case1 => simp at h
  | case2 cs => cases h; simp [closeComment?]
  | case3 c cs hc ih =>
    obtain ⟨⟨body', rest'⟩, hb, he⟩ := Option.map_eq_some_iff.mp h
    cases he
    have hstart : ∀ ds, c = '*' → cs ++ b = '/' :: ds → False := by
      intro ds hstar hslash
      cases cs with
      | nil => simp [closeComment?] at hb
      | cons d cs => exact hc cs hstar (by simp_all)
    rw [List.cons_append, closeComment?, ih hb]
    · rfl
    · exact hstart

theorem closeComment?_eq_none {cs : List Char} :
    closeComment? cs = none ↔ ¬ ['*', '/'] <:+: cs := by
  fun_induction closeComment? cs with
  | case1 => simp
  | case2 cs =>
    have hmark : ['*', '/'] <:+: ['*', '/'] ++ cs := List.infix_append_left
    simpa using hmark
  | case3 c cs hc ih =>
    rw [Option.map_eq_none_iff, ih, List.infix_cons_iff, not_or]
    refine ⟨fun h => ⟨?_, h⟩, fun h => h.2⟩
    rintro ⟨t, ht⟩
    simp only [List.cons_append, List.nil_append, List.cons.injEq] at ht
    obtain ⟨rfl, rfl⟩ := ht
    exact hc t rfl rfl

theorem closeComment?_suffix {cs body rest : List Char}
    (h : closeComment? cs = some (body, rest)) : ['*', '/'] <:+ body := by
  fun_induction closeComment? cs generalizing body rest with
  | case1 => simp at h
  | case2 cs => cases h; simp
  | case3 c cs hc ih =>
    obtain ⟨⟨body', rest'⟩, hb, he⟩ := Option.map_eq_some_iff.mp h
    cases he
    exact (ih hb).trans (List.suffix_cons c body')

theorem EndsLine.not_suffix {a t : List Char} {c : Char} (ha : EndsLine a) (hc : c ≠ '\n') :
    ¬ t ++ [c] <:+ a := by
  rintro ⟨s, rfl⟩
  exact hc (ha c (by simp))

theorem eq_split_two {c d : Char} {front back : List Char} (h : [c, d] = front ++ back) :
    front = [] ∨ front = [c] ∨ front = [c, d] := by
  match front, h with
  | [], _ => exact .inl rfl
  | [_], h => cases h; exact .inr (.inl rfl)
  | [_, _], h => cases h; exact .inr (.inr rfl)

/-- A closing mark does not stand across the end of a line. -/
theorem EndsLine.suffix_append {a b : List Char} (ha : EndsLine a) (h : ['*', '/'] <:+ a ++ b) :
    ['*', '/'] <:+ b := by
  obtain ⟨t, ht⟩ := h
  rcases List.append_eq_append_iff.mp ht with ⟨a', rfl, hb⟩ | ⟨b', -, hb⟩
  · rcases eq_split_two hb with rfl | rfl | rfl
    · exact ⟨[], hb⟩
    · exact absurd (List.suffix_append t ['*']) (ha.not_suffix (t := []) (by decide))
    · exact absurd (List.suffix_append t ['*', '/']) (ha.not_suffix (t := ['*']) (by decide))
  · exact ⟨b', hb.symm⟩

theorem EndsLine.infix_append {a b : List Char} (ha : EndsLine a) (h : ['*', '/'] <:+: a ++ b) :
    ['*', '/'] <:+: a ∨ ['*', '/'] <:+: b := by
  rcases List.infix_append_iff_ne_nil.mp h with h | h | ⟨front, back, hfront, -, he, hsuffix, -⟩
  · exact .inl h
  · exact .inr h
  · rcases eq_split_two he with rfl | rfl | rfl
    · exact absurd rfl hfront
    · exact absurd hsuffix (ha.not_suffix (t := []) (by decide))
    · exact absurd hsuffix (ha.not_suffix (t := ['*']) (by decide))

theorem closeComment?_append_none {cs b : List Char} (h : closeComment? cs = none)
    (hline : EndsLine cs) (hb : ¬ ['*', '/'] <:+: b) : closeComment? (cs ++ b) = none := by
  rw [closeComment?_eq_none] at h ⊢
  exact fun hin => (hline.infix_append hin).elim h hb

theorem takeWhile_line {cs : List Char} (h : '\n' ∈ cs) (b : List Char) :
    (cs ++ b).takeWhile (· != '\n') = cs.takeWhile (· != '\n') ∧
      (cs ++ b).dropWhile (· != '\n') = cs.dropWhile (· != '\n') ++ b := by
  induction cs with
  | nil => simp at h
  | cons c cs ih =>
    by_cases hc : c = '\n'
    · simp [hc]
    · have := ih ((List.mem_cons.mp h).resolve_left (Ne.symm hc))
      simp [hc, this]

/-! ## Lexemes -/

/-- What a lexeme can be. A line comment stays on its line, and a block comment ends in its closing
mark. -/
theorem next_cases (c : Char) (cs : List Char) :
    next c cs = (.char c, cs) ∨
      (∃ body rest, body ++ rest = cs ∧ next c cs = (.literal (c :: body), rest)) ∨
      ∃ body rest, c = '/' ∧ body ++ rest = cs ∧ next c cs = (.comment ('/' :: body), rest) ∧
        ('\n' ∉ body ∨ ['*', '/'] <:+ body) := by
  unfold next
  split
  · split
    · rename_i body rest h
      exact .inr (.inl ⟨body, rest, closeLiteral?_append h, rfl⟩)
    · exact .inl rfl
  · split
    · rename_i rest _
      refine .inr (.inr ⟨'/' :: rest.takeWhile (· != '\n'), rest.dropWhile (· != '\n'), rfl, ?_, rfl,
        .inl ?_⟩)
      · simp [List.takeWhile_append_dropWhile]
      · intro hmem
        have hline : '\n' ∈ rest.takeWhile (· != '\n') := by simpa using hmem
        simpa using List.all_eq_true.mp (List.all_takeWhile (p := (· != '\n')) (l := rest)) _ hline
    · rename_i rest _
      unfold blockComment
      split
      · rename_i body rest' h
        refine .inr (.inr ⟨'*' :: body, rest', rfl, ?_, rfl, .inr ?_⟩)
        · simp [closeComment?_append h]
        · exact (closeComment?_suffix h).trans (List.suffix_cons _ _)
      · exact .inl rfl
    · exact .inl rfl

@[simp] theorem lexemes_nil : lexemes [] = [] := by rw [lexemes]

theorem lexemes_cons (c : Char) (cs : List Char) :
    lexemes (c :: cs) = (next c cs).1 :: lexemes (next c cs).2 := by rw [lexemes]

@[simp] theorem mask_nil : mask [] = [] := by simp [mask]

theorem mask_cons (c : Char) (cs : List Char) :
    mask (c :: cs) = (next c cs).1.masked ++ mask (next c cs).2 := by
  simp [mask, lexemes_cons]

/-- Masking keeps every offset. -/
theorem mask_length (cs : List Char) : (mask cs).length = cs.length := by
  have hmasked : ∀ lexeme : Lexeme, lexeme.masked.length = lexeme.text.length := by
    intro lexeme
    cases lexeme <;> simp [Lexeme.masked, Lexeme.text]
  calc (mask cs).length = ((lexemes cs).flatMap Lexeme.text).length := by
        simp [mask, List.length_flatMap, hmasked]
    _ = cs.length := by rw [lexemes_text]

theorem Lexeme.masked_breaks (l : Lexeme) : l.masked.map (· == '\n') = l.text.map (· == '\n') := by
  cases l with
  | char c => rfl
  | literal text => rfl
  | comment text =>
    rw [Lexeme.masked, List.map_map]
    refine List.map_congr_left fun c _ => ?_
    by_cases hc : c = '\n' <;> simp [hc]

/-- Line breaks stay, also in comments. -/
theorem mask_breaks (cs : List Char) : (mask cs).map (· == '\n') = cs.map (· == '\n') := by
  calc (mask cs).map (· == '\n') = ((lexemes cs).flatMap Lexeme.text).map (· == '\n') := by
        simp [mask, List.map_flatMap, Lexeme.masked_breaks]
    _ = cs.map (· == '\n') := by rw [lexemes_text]

theorem Lexeme.masked_getElem? (l : Lexeme) (i : Nat) :
    l.masked[i]? = l.text[i]? ∨ l.masked[i]? = some ' ' := by
  cases l with
  | char c => exact .inl rfl
  | literal text => exact .inl rfl
  | comment text =>
    rw [Lexeme.masked, Lexeme.text, List.getElem?_map]
    cases text[i]? with
    | none => exact .inl rfl
    | some c => by_cases hc : c = '\n' <;> simp [hc]

/-- Nothing is put into a text but spaces. -/
theorem mask_getElem? (cs : List Char) (i : Nat) :
    (mask cs)[i]? = cs[i]? ∨ (mask cs)[i]? = some ' ' := by
  have hlexemes : ∀ (ls : List Lexeme) (i : Nat),
      (ls.flatMap Lexeme.masked)[i]? = (ls.flatMap Lexeme.text)[i]? ∨
        (ls.flatMap Lexeme.masked)[i]? = some ' ' := by
    intro ls
    induction ls with
    | nil => exact fun i => .inl rfl
    | cons l ls ih =>
      intro i
      have hlength : l.masked.length = l.text.length := by
        simpa using congrArg List.length l.masked_breaks
      rw [List.flatMap_cons, List.flatMap_cons, List.getElem?_append, List.getElem?_append, hlength]
      split
      · exact l.masked_getElem? i
      · exact ih _
  have hcs := hlexemes (lexemes cs) i
  rwa [lexemes_text] at hcs

theorem endsLine_of_breaks {a b : List Char} (h : a.map (· == '\n') = b.map (· == '\n'))
    (ha : EndsLine a) : EndsLine b := by
  intro c hc
  have hlast := congrArg List.getLast? h
  rw [List.getLast?_map, List.getLast?_map, hc, Option.map_some] at hlast
  obtain ⟨d, hd, he⟩ := Option.map_eq_some_iff.mp hlast
  rw [ha d hd] at he
  simpa using he.symm

theorem EndsLine.mask {cs : List Char} (h : EndsLine cs) : EndsLine (Source.mask cs) :=
  endsLine_of_breaks (mask_breaks cs).symm h

/-- Where two texts meet without a comment or a literal that reaches from one into the other. -/
structure Seam (a b : List Char) : Prop where
  endsLine : EndsLine a
  /-- Only a backtick can close a literal that runs on. -/
  backtick : '\x60' ∈ b → .char '\x60' ∉ lexemes a
  /-- Only a closing mark can end a block comment that runs on. -/
  comment : ['*', '/'] <:+: b → ¬ [.char '/', .char '*'] <:+: lexemes a

theorem Seam.rest {c : Char} {cs b : List Char} (h : Seam (c :: cs) b) : Seam (next c cs).2 b where
  endsLine := by
    have hline := h.endsLine
    rw [← next_text c cs] at hline
    exact hline.right
  backtick hb hmem := h.backtick hb (by rw [lexemes_cons]; exact List.mem_cons_of_mem _ hmem)
  comment hb hin := h.comment hb (by rw [lexemes_cons]; exact hin.trans (List.suffix_cons _ _).isInfix)

theorem Seam.literal_append {c : Char} {cs b : List Char} (h : Seam (c :: cs) b)
    (hquote : isQuote c = true) : closeLiteral? c (isMultiline c) (cs ++ b) =
      (closeLiteral? c (isMultiline c) cs).map fun (body, rest) => (body, rest ++ b) := by
  cases hclose : closeLiteral? c (isMultiline c) cs with
  | some parts => simp [closeLiteral?_append_some hclose b]
  | none =>
    by_cases hc : c = '\x60'
    · subst hc
      refine closeLiteral?_append_none hclose fun hmem => h.backtick hmem ?_
      simp [lexemes_cons, next, hquote, hclose]
    · have hone : isMultiline c = false := by simpa [isMultiline] using hc
      rw [hone] at hclose ⊢
      refine closeLiteral?_line_none hclose (h.endsLine.mem_tail ?_) b
      rintro rfl
      simp [isQuote] at hquote

theorem Seam.blockComment_append {cs b : List Char} (h : Seam ('/' :: '*' :: cs) b) :
    blockComment (cs ++ b) = ((blockComment cs).1, (blockComment cs).2 ++ b) := by
  unfold blockComment
  cases hclose : closeComment? cs with
  | some parts => simp [closeComment?_append_some hclose b]
  | none =>
    have hopen : ¬ ['*', '/'] <:+: b := fun hin => by
      refine h.comment hin ⟨[], lexemes cs, ?_⟩
      simp [lexemes_cons, next, isQuote, blockComment, hclose]
    simp [closeComment?_append_none hclose h.endsLine.tail.tail hopen]

/-- Lexemes end before a seam. -/
theorem Seam.next_append {c : Char} {cs b : List Char} (h : Seam (c :: cs) b) :
    next c (cs ++ b) = ((next c cs).1, (next c cs).2 ++ b) := by
  by_cases hquote : isQuote c = true
  · simp only [next, hquote, if_true, h.literal_append hquote]
    cases closeLiteral? c (isMultiline c) cs <;> rfl
  · by_cases hslash : c = '/'
    · subst hslash
      match cs, h with
      | [], h => exact absurd (h.endsLine '/' rfl) (by decide)
      | d :: cs, h =>
        by_cases h1 : d = '/'
        · subst h1
          have hmem : '\n' ∈ cs := h.endsLine.tail.mem_tail (by decide)
          simp [next, isQuote, takeWhile_line hmem b]
        · by_cases h2 : d = '*'
          · subst h2
            simpa [next, isQuote] using h.blockComment_append
          · simp [next, isQuote, h1, h2]
    · simp [next, hquote, hslash]

/-- Two texts with a seam between them are read one after the other. -/
theorem lexemes_append {a b : List Char} (h : Seam a b) : lexemes (a ++ b) = lexemes a ++ lexemes b := by
  fun_induction lexemes a with
  | case1 => simp
  | case2 c cs ih =>
    rw [List.cons_append, lexemes_cons, h.next_append, ih h.rest, List.cons_append]

theorem mask_append {a b : List Char} (h : Seam a b) : mask (a ++ b) = mask a ++ mask b := by
  simp [mask, lexemes_append h]

/-! ## Lines in sight -/

/-- Without a slash nothing is masked. -/
theorem mask_of_no_slash : ∀ line : List Char, '/' ∉ line → ∀ rest,
    ∃ after, mask (line ++ rest) = line ++ after
  | [], _, rest => ⟨mask rest, rfl⟩
  | c :: line, hline, rest => by
    have htail : '/' ∉ line := fun h => hline (List.mem_cons_of_mem _ h)
    rw [List.cons_append, mask_cons]
    rcases next_cases c (line ++ rest) with he | ⟨body, rest', hparts, he⟩ | ⟨_, _, hslash, _⟩
    · obtain ⟨after, hafter⟩ := mask_of_no_slash line htail rest
      exact ⟨after, by simp [he, Lexeme.masked, Lexeme.text, hafter]⟩
    · rcases List.append_eq_append_iff.mp hparts with ⟨line', rfl, rfl⟩ | ⟨body', rfl, rfl⟩
      · obtain ⟨after, hafter⟩ := mask_of_no_slash line'
          (fun h => htail (List.mem_append_right _ h)) rest
        exact ⟨after, by rw [he, hafter]; simp [Lexeme.masked, Lexeme.text]⟩
      · exact ⟨body' ++ mask rest', by simp [he, Lexeme.masked, Lexeme.text]⟩
    · exact absurd (by simp [hslash]) hline
termination_by line => line.length
decreasing_by
  all_goals subst_vars
  all_goals simp only [List.length_cons, List.length_append]
  all_goals omega

/-- A text with its comments' characters blanked out. -/
def blanked (cs : List Char) : List Char := cs.map fun c => if c == '\n' then c else ' '

/-- Behind a text that ends a line, a text without a slash stays as it is, or it is blanked out as a
whole: a comment that starts earlier either ends earlier or goes on beyond its end. -/
theorem mask_behind (line rest : List Char) (hline : '/' ∉ line) :
    ∀ front : List Char, EndsLine front → ∃ before shown after,
      mask (front ++ (line ++ rest)) = before ++ (shown ++ after) ∧ before.length = front.length ∧
        (shown = line ∨ shown = blanked line ∧ ['*', '/'] <:+: line ++ rest)
  | [], _ => by
    obtain ⟨after, hafter⟩ := mask_of_no_slash line hline rest
    exact ⟨[], line, after, hafter, rfl, .inl rfl⟩
  | c :: front, hfront => by
    -- a lexeme that ends before the text
    have hshort : ∀ front', front'.length ≤ front.length → EndsLine front' →
        ∀ shown : List Char, shown.length + front'.length = (c :: front).length →
          ∃ before shown' after, shown ++ mask (front' ++ (line ++ rest)) =
              before ++ (shown' ++ after) ∧ before.length = (c :: front).length ∧
            (shown' = line ∨ shown' = blanked line ∧ ['*', '/'] <:+: line ++ rest) := by
      intro front' hlength hends shown htotal
      obtain ⟨before, shown', after, hmask, hbefore, hshown⟩ :=
        mask_behind line rest hline front' hends
      refine ⟨shown ++ before, shown', after, by simp [hmask], ?_, hshown⟩
      rw [List.length_append, hbefore, htotal]
    rw [List.cons_append, mask_cons]
    rcases next_cases c (front ++ (line ++ rest)) with
      he | ⟨body, rest', hparts, he⟩ | ⟨body, rest', hslash, hparts, he, hbody⟩
    · rw [he]
      exact hshort front (Nat.le_refl _) hfront.tail [c] (by simp only [List.length_cons, List.length_nil]; omega)
    · rw [he]
      rcases List.append_eq_append_iff.mp hparts with ⟨front', rfl, rfl⟩ | ⟨body', rfl, hsplit⟩
      · refine hshort front' ?_ hfront.tail.right (c :: body) ?_ <;>
          simp only [List.length_cons, List.length_append] <;> omega
      · -- a literal hides nothing
        rcases List.append_eq_append_iff.mp hsplit with ⟨body'', rfl, rfl⟩ | ⟨line', rfl, rfl⟩
        · exact ⟨c :: front, line, body'' ++ mask rest', by simp [Lexeme.masked, Lexeme.text], rfl,
            .inl rfl⟩
        · obtain ⟨after, hafter⟩ := mask_of_no_slash line'
            (fun h => hline (List.mem_append_right _ h)) rest
          exact ⟨c :: front, body' ++ line', after,
            by simp [Lexeme.masked, Lexeme.text, hafter], rfl, .inl rfl⟩
    · rw [he]
      rcases List.append_eq_append_iff.mp hparts with ⟨front', rfl, rfl⟩ | ⟨body', rfl, hsplit⟩
      · refine hshort front' ?_ hfront.tail.right _ ?_ <;>
          simp only [Lexeme.masked, List.length_map, List.length_cons, List.length_append] <;> omega
      · by_cases hnil : body' = []
        · subst hnil
          rw [List.nil_append] at hsplit
          rw [← hsplit]
          exact hshort [] (by simp) endsLine_nil _ (by simp [Lexeme.masked])
        · -- the comment goes on into the text, so it is a block comment and ends behind it
          have hbreak : '\n' ∈ front := hfront.mem_tail (by rw [hslash]; decide)
          have hend : ['*', '/'] <:+ body' :=
            hfront.tail.suffix_append (hbody.resolve_left fun h => h (List.mem_append_left _ hbreak))
          rcases List.append_eq_append_iff.mp hsplit with ⟨body'', rfl, rfl⟩ | ⟨line', rfl, rfl⟩
          · refine ⟨(Lexeme.comment ('/' :: front)).masked, blanked line,
              (Lexeme.comment body'').masked ++ mask rest', ?_, by simp [Lexeme.masked],
              .inr ⟨rfl, ?_⟩⟩
            · simp [Lexeme.masked, blanked]
            · rw [← List.append_assoc]
              exact hend.isInfix.trans (List.prefix_append _ _).isInfix
          · exact absurd (List.mem_append_left _ (hend.subset (by simp))) hline
termination_by front => front.length

/-- A line without a slash stays in sight behind any text if no block comment can end after it. -/
theorem line_in_sight (line rest : List Char) (hline : '/' ∉ line)
    (hrest : ¬ ['*', '/'] <:+: line ++ rest) (front : List Char) :
    ∃ before after, mask (front ++ '\n' :: (line ++ rest)) = before ++ (line ++ after) := by
  obtain ⟨before, shown, after, hmask, -, hshown⟩ :=
    mask_behind line rest hline (front ++ ['\n']) (endsLine_concat front)
  rw [List.append_assoc, List.singleton_append] at hmask
  rcases hshown with rfl | ⟨-, hend⟩
  · exact ⟨before, after, hmask⟩
  · exact absurd hend hrest

end SchemaScaffold.Source
