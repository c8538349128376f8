import SchemaScaffold.Proofs.Source.Blocks
import SchemaScaffold.Proofs.Source.Tables

/-!
Where a declaration stands. A text with a declaration that is found falls into what stands before it,
its lead up to the parenthesis, the block from there, the terminator that the block takes along, and
what stands behind it. The search reads the masked text and the block the text itself, and both come
to the same parenthesis.
-/

namespace SchemaScaffold.Source

open Text

/-! ## What ends a block -/

/-- A terminator that a block takes along in front of a text. -/
structure Terminates (terminator rest : List Char) : Prop where
  isTerminator : IsTerminator terminator
  stops : skipTerminator (terminator ++ rest) = rest

/-- Skipping that stops at a character stops there whatever follows it. -/
def StopsBefore (skip : List Char → List Char) : Prop :=
  ∀ (a : List Char) (c : Char) (x : List Char), c :: x <:+ skip (a ++ c :: x) →
    ∃ a', ∀ y, skip (a ++ c :: y) = a' ++ c :: y

theorem stopsBefore_inline : StopsBefore skipInlineBlanks := by
  intro a c x h
  by_cases ha : ∀ d ∈ a, isInlineBlank d = true
  · refine ⟨[], fun y => ?_⟩
    have hc : isInlineBlank c = false := by
      rw [← Bool.not_eq_true]
      intro hc
      rw [skipInlineBlanks_append ha, skipInlineBlanks, List.dropWhile_cons_of_pos hc] at h
      exact Nat.not_succ_le_self _ (Nat.le_trans h.length_le (dropWhile_length_le isInlineBlank x))
    rw [skipInlineBlanks_append ha, skipInlineBlanks, List.dropWhile_cons_of_neg (by simp [hc])]
    rfl
  · push Not at ha
    obtain ⟨d, hd, hne⟩ := ha
    exact ⟨a.dropWhile isInlineBlank, fun y =>
      (takeWhile_append_of_mem hd (by simpa using hne) (c :: y)).2.1⟩

theorem stopsBefore_char (mark : Char) : StopsBefore (skipChar mark) := by
  intro a c x h
  cases a with
  | nil =>
    refine ⟨[], fun y => ?_⟩
    by_cases hc : (c == mark) = true
    · rw [List.nil_append, skipChar, if_pos hc] at h
      exact absurd h.length_le (Nat.not_succ_le_self _)
    · rw [List.nil_append, skipChar, if_neg hc]
  | cons d a =>
    by_cases hd : (d == mark) = true
    · exact ⟨a, fun y => by rw [List.cons_append, skipChar, if_pos hd]⟩
    · exact ⟨d :: a, fun y => by rw [List.cons_append, skipChar, if_neg hd]⟩

theorem StopsBefore.comp {skip skip' : List Char → List Char} (h : StopsBefore skip)
    (h' : StopsBefore skip') (hsuffix : ∀ cs, skip' cs <:+ cs) :
    StopsBefore fun cs => skip' (skip cs) := by
  intro a c x hstop
  obtain ⟨a', ha⟩ := h a c x (hstop.trans (hsuffix _))
  obtain ⟨a'', ha'⟩ := h' a' c x (by rwa [← ha])
  exact ⟨a'', fun y => (congrArg skip' (ha y)).trans (ha' y)⟩

theorem stopsBefore_terminator : StopsBefore skipTerminator :=
  ((stopsBefore_inline.comp (stopsBefore_char ';') (skipChar_suffix ';')).comp stopsBefore_inline
    skipInlineBlanks_suffix).comp (stopsBefore_char '\n') (skipChar_suffix '\n')

/-- A terminator stays what it is if it ends its line, or if the same character comes next. -/
theorem Terminates.congr {terminator rest rest' : List Char} (h : Terminates terminator rest)
    (hnext : ['\n'] <:+ terminator ∨ rest'.head? = rest.head?) : Terminates terminator rest' := by
  refine ⟨h.isTerminator, ?_⟩
  rcases hnext with ⟨front, hbreak⟩ | hhead
  · obtain ⟨before, semicolon, after, lineBreak, he, hbefore, hsemicolon, hafter, rfl | rfl⟩ :=
      h.isTerminator
    · have hmem : '\n' ∈ before ++ semicolon ++ after := by
        rw [List.append_nil] at he
        rw [← he, ← hbreak]
        simp
      rw [List.mem_append, List.mem_append] at hmem
      rcases hmem with (hmem | hmem) | hmem
      · exact absurd (hbefore _ hmem) (by decide)
      · rcases hsemicolon with rfl | rfl <;> simp at hmem
      · exact absurd (hafter _ hmem) (by decide)
    · rw [he, List.append_assoc _ ['\n'], List.singleton_append]
      exact skipTerminator_line hbefore hsemicolon hafter rest'
  · cases rest with
    | nil =>
      obtain rfl : rest' = [] := by simpa using hhead
      exact h.stops
    | cons c x =>
      obtain ⟨y, rfl⟩ := List.head?_eq_some_iff.mp hhead
      obtain ⟨a, ha⟩ := stopsBefore_terminator terminator c x ⟨[], h.stops.symm⟩
      obtain rfl : a = [] := by
        have hlength := congrArg List.length ((ha x).symm.trans h.stops)
        simpa using hlength
      exact ha y

/-- A terminator that stops at a line break has ended its line before. -/
theorem Terminates.break {terminator rest : List Char} (h : Terminates terminator ('\n' :: rest)) :
    ['\n'] <:+ terminator := by
  obtain ⟨before, semicolon, after, lineBreak, rfl, hbefore, hsemicolon, hafter, rfl | rfl⟩ :=
    h.isTerminator
  · have hstops := h.stops
    rw [List.append_nil, skipTerminator_line hbefore hsemicolon hafter] at hstops
    have hlength := congrArg List.length hstops
    simp at hlength
  · exact List.suffix_append _ _

/-! ## A declaration and its place -/

/-- A reader of declarations: it starts within a line, and leaves the parenthesis and what follows. -/
structure DeclarationReader (read : List Char → Option (List Char)) : Prop where
  atBreak : ∀ cs, read ('\n' :: cs) = none
  parts : ∀ {cs rest}, read cs = some rest →
    ∃ lead after, lead ≠ [] ∧ cs = lead ++ rest ∧ rest = '(' :: after

/-- The text that is searched, over the text itself: line breaks stay, and no parenthesis is new. -/
structure Covers (shown text : List Char) : Prop where
  breaks : shown.map (· == '\n') = text.map (· == '\n')
  opening : ∀ {i : Nat}, shown[i]? = some '(' → text[i]? = some '('

/-- A text falls into these pieces: a declaration that is found, and what stands around it. -/
structure Located (read : List Char → Option (List Char)) (shown text front lead body terminator
    back : List Char) : Prop where
  text_eq : text = front ++ (lead ++ (body ++ (terminator ++ back)))
  found : atLineStart? read true shown =
    some (front.length, shown.drop (front.length + lead.length))
  isBlock : ∃ lexemes, IsBlock lexemes ∧ body = textOf lexemes ∧ ∀ rest, ReadAs lexemes rest
  terminates : Terminates terminator back

theorem Covers.refl (text : List Char) : Covers text text := ⟨rfl, id⟩

theorem covers_mask (text : List Char) : Covers (mask text) text where
  breaks := mask_breaks text
  opening {i} h := by
    rcases mask_getElem? text i with hsame | hspace
    · rwa [← hsame]
    · rw [hspace] at h
      cases h

theorem Covers.length {shown text : List Char} (h : Covers shown text) : shown.length = text.length := by
  simpa using congrArg List.length h.breaks

section Located

variable {read : List Char → Option (List Char)} {shown text front lead body terminator back : List Char}

/-- What a block and its terminator leave. -/
theorem blockEnd_pieces {cs : List Char} {start stop : Nat} (hopen : text.drop start = '(' :: cs)
    (h : blockEnd text start = .ok stop) : ∃ lexemes terminator back, IsBlock lexemes ∧
      (∀ rest, ReadAs lexemes rest) ∧ Terminates terminator back ∧
        text.drop start = textOf lexemes ++ (terminator ++ back) ∧
          stop = text.length - back.length := by
  rw [blockEnd_eq] at h
  obtain ⟨left, hclose, rfl⟩ := map_ok h
  rw [hopen] at hclose
  obtain ⟨lexemes, hblock, hreading, hbody⟩ := (closeBlock_iff (by rfl)).mp hclose
  obtain ⟨terminator, hterminator, hleft⟩ := exists_terminator left
  refine ⟨lexemes, terminator, skipTerminator left, hblock, hblock.reading_congr hreading,
    ⟨hterminator, by rw [← hleft]⟩, ?_, rfl⟩
  rw [hopen, hbody, ← hleft]

/-- What is found falls into pieces. -/
theorem exists_located (hread : DeclarationReader read) (hcovers : Covers shown text) {span : Span}
    (h : declarationSpan read shown text = .ok (some span)) :
    ∃ front lead body terminator back, Located read shown text front lead body terminator back ∧
      span = ⟨front.length, (front ++ (lead ++ (body ++ terminator))).length⟩ := by
  rw [declarationSpan] at h
  split at h
  · cases h
  · rename_i start rest hfound
    obtain ⟨stop, hstop, he⟩ := map_ok h
    obtain rfl := Option.some.inj he
    obtain ⟨hmem, hreads⟩ := atLineStart?_some hfound
    obtain ⟨lead, after, -, hlead, rfl⟩ := hread.parts hreads
    have hstart : start ≤ shown.length :=
      Nat.le_of_not_lt fun hlt => (lineStarts_suffix hmem).2 (List.drop_eq_nil_of_le (Nat.le_of_lt hlt))
    have hoffset : shown.length - ('(' :: after).length = start + lead.length := by
      have hlength := congrArg List.length hlead
      rw [List.length_drop, List.length_append] at hlength
      omega
    have hparen : shown.drop (start + lead.length) = '(' :: after := by
      rw [← List.drop_drop, hlead, List.drop_left]
    obtain ⟨cs, hcs⟩ : ∃ cs, text.drop (start + lead.length) = '(' :: cs :=
      drop_of_open (hcovers.opening (by rw [← List.head?_drop, hparen, List.head?_cons]))
    have hwithin : start + lead.length < text.length :=
      Nat.lt_of_not_le fun hle => by simp [List.drop_eq_nil_of_le hle] at hcs
    rw [hoffset] at hstop
    obtain ⟨lexemes, terminator, back, hblock, hreading, hterminates, hbody, rfl⟩ :=
      blockEnd_pieces hcs hstop
    have hfront : (text.take start).length = start := by
      rw [List.length_take]
      omega
    have hlength : ((text.drop start).take lead.length).length = lead.length := by
      rw [List.length_take, List.length_drop]
      omega
    have htext : text = text.take start ++ ((text.drop start).take lead.length ++
        (textOf lexemes ++ (terminator ++ back))) := by
      rw [← hbody, ← List.drop_drop, List.take_append_drop, List.take_append_drop]
    refine ⟨text.take start, (text.drop start).take lead.length, textOf lexemes, terminator, back,
      ⟨htext, ?_, ⟨lexemes, hblock, rfl, hreading⟩, hterminates⟩, ?_⟩
    · rw [hfound, hfront, hlength, hparen]
    · have hall := congrArg List.length htext
      rw [hfront, Span.mk.injEq]
      refine ⟨rfl, ?_⟩
      simp only [List.length_append] at hall ⊢
      omega

/-- The block that starts at the parenthesis ends with its terminator. -/
theorem Located.blockEnd (h : Located read shown text front lead body terminator back) :
    Source.blockEnd text (front ++ lead).length =
      .ok (front ++ (lead ++ (body ++ terminator))).length := by
  obtain ⟨lexemes, hblock, rfl, hreading⟩ := h.isBlock
  have hend := blockEnd_framed (front ++ lead) hblock (hreading (terminator ++ back)) h.terminates.stops
  rw [List.append_assoc, ← h.text_eq] at hend
  simpa only [List.append_assoc] using hend

theorem Located.declarationSpan (h : Located read shown text front lead body terminator back)
    (hlength : shown.length = text.length) : Source.declarationSpan read shown text =
      .ok (some ⟨front.length, (front ++ (lead ++ (body ++ terminator))).length⟩) := by
  have hoffset : shown.length - (shown.drop (front.length + lead.length)).length =
      (front ++ lead).length := by
    have htext := congrArg List.length h.text_eq
    simp only [List.length_append, List.length_drop] at htext ⊢
    omega
  rw [Source.declarationSpan, h.found]
  simp only [hoffset, h.blockEnd, Except.map]

/-- Up to the parenthesis, the text that is searched falls into pieces like the text itself. -/
theorem Located.shown_eq (h : Located read shown text front lead body terminator back)
    (hread : DeclarationReader read) (hcovers : Covers shown text) : ∃ front' lead' after,
      shown = front' ++ (lead' ++ '(' :: after) ∧
        front'.map (· == '\n') = front.map (· == '\n') ∧
        lead'.map (· == '\n') = lead.map (· == '\n') ∧ lead'.head?.any (· != '\n') = true := by
  have hreads := (atLineStart?_some h.found).2
  obtain ⟨lead', after, hne, hlead, hafter⟩ := hread.parts hreads
  have hlength := hcovers.length
  have htext := congrArg List.length h.text_eq
  have hparts := congrArg List.length hlead
  simp only [List.length_append, List.length_drop] at htext hparts
  have hpos := congrArg List.length hafter
  simp only [List.length_drop, List.length_cons] at hpos
  have hshow : shown = shown.take front.length ++ (lead' ++ '(' :: after) := by
    rw [← hafter, ← hlead, List.take_append_drop]
  have hbreaks := hcovers.breaks
  rw [h.text_eq, hshow] at hbreaks
  simp only [List.map_append] at hbreaks
  obtain ⟨hfront, hbehind⟩ := List.append_inj hbreaks (by simp; omega)
  refine ⟨_, lead', after, hshow, hfront, (List.append_inj hbehind (by simp; omega)).1, ?_⟩
  obtain ⟨c, lead', rfl⟩ := List.exists_cons_of_ne_nil hne
  have hc : c ≠ '\n' := by
    rintro rfl
    rw [hlead, List.cons_append, hread.atBreak] at hreads
    cases hreads
  simpa using hc

/-- A declaration starts a line. -/
theorem Located.endsLine (h : Located read shown text front lead body terminator back)
    (hread : DeclarationReader read) (hcovers : Covers shown text) : EndsLine front := by
  obtain ⟨before, hbefore, hline⟩ := lineStarts_front (atLineStart?_some h.found).1
  obtain ⟨front', lead', after, hshow, hfront, -, -⟩ := h.shown_eq hread hcovers
  have hlength : front'.length = front.length := by simpa using congrArg List.length hfront
  obtain rfl : before = front' := by
    rw [hshow, ← hlength, List.drop_left] at hbefore
    exact (List.append_cancel_right hbefore).symm
  exact endsLine_of_breaks hfront hline

end Located

/-! ## Other text around a declaration -/

/-- Behind a text, what starts at the lines of the text is read within the text. -/
def ReadsWithin (read : List Char → Option (List Char)) (a b : List Char) : Prop :=
  ∀ x ∈ lineStarts true a, read (x ++ b) = (read x).map (· ++ b)

theorem atLineStart?_lt {read : List Char → Option (List Char)} {a rest : List Char} {lineStart : Bool}
    {offset : Nat} (h : atLineStart? read lineStart a = some (offset, rest)) : offset < a.length :=
  Nat.lt_of_not_le fun hle =>
    (lineStarts_suffix (atLineStart?_some h).1).2 (List.drop_eq_nil_of_le hle)

/-- What is found behind a text is found where the text is left out, if the rest starts a line there
only where it did, or where nothing is read. -/
theorem atLineStart?_behind {read : List Char → Option (List Char)} {a b rest : List Char}
    {lineStart : Bool} {offset : Nat}
    (h : atLineStart? read lineStart (a ++ b) = some (a.length + offset, rest))
    (hline : (EndsLine a ∧ (a = [] → lineStart = true)) ∨ read b = none) :
    atLineStart? read true b = some (offset, rest) := by
  induction a generalizing lineStart with
  | nil =>
    rw [List.nil_append, List.length_nil, Nat.zero_add] at h
    cases b with
    | nil => cases h
    | cons c b =>
      cases lineStart with
      | true => exact h
      | false =>
        have hnone : read (c :: b) = none :=
          hline.resolve_left fun hstart => absurd (hstart.2 rfl) Bool.false_ne_true
        rw [atLineStart?] at h ⊢
        rwa [if_pos rfl, hnone]
  | cons c a ih =>
    rw [List.cons_append, atLineStart?] at h
    split at h
    · simp at h
      omega
    · obtain ⟨⟨offset', rest'⟩, hfound, he⟩ := Option.map_eq_some_iff.mp h
      obtain ⟨rfl, rfl⟩ : offset' = a.length + offset ∧ rest' = rest := by
        simp only [List.length_cons, Prod.mk.injEq] at he
        exact ⟨by omega, he.2⟩
      refine ih hfound (hline.imp_left fun hstart => ⟨hstart.1.tail, fun hnil => ?_⟩)
      simpa [hnil] using hstart.1 c (by simp [hnil])

/-- A line that ends with a block ends with the terminator, for a bracket is no line break. -/
theorem IsBlock.ends_break {lexemes : List Lexeme} {terminator : List Char} (h : IsBlock lexemes)
    (hline : EndsLine (textOf lexemes ++ terminator)) : ['\n'] <:+ terminator := by
  obtain ⟨c, hlast, hc⟩ := h.getLast?
  have hends : terminator ≠ [] := by
    rintro rfl
    rw [List.append_nil] at hline
    rw [hline c hlast] at hc
    cases hc
  have hbreak := hline.right _ (List.getLast?_eq_some_getLast hends)
  exact ⟨terminator.dropLast, by rw [← hbreak, List.dropLast_concat_getLast]⟩

section Around

variable {read : List Char → Option (List Char)} {front lead body terminator back : List Char}
  {a b b' s t : List Char}

/-- The text behind the line on which a declaration ends may be another one. -/
theorem Located.behind (h : Located read (a ++ b) (s ++ t) front lead body terminator back)
    (hlength : a.length = s.length) (ha : EndsLine a) (hs : EndsLine s)
    (hfits : (front ++ (lead ++ (body ++ terminator))).length ≤ s.length) (hb : ReadsWithin read a b)
    (hb' : ReadsWithin read a b') (t' : List Char) :
    ∃ back', Located read (a ++ b') (s ++ t') front lead body terminator back' := by
  obtain ⟨lexemes, hblock, hbody, -⟩ := h.isBlock
  have hne : body ≠ [] := hbody ▸ hblock.textOf_ne_nil
  have hpos := List.length_pos_iff.mpr hne
  obtain ⟨more, hmore⟩ : front ++ (lead ++ (body ++ terminator)) <+: s := by
    refine List.prefix_of_prefix_length_le ?_ (List.prefix_append s t) hfits
    rw [h.text_eq]
    exact ⟨back, by simp⟩
  obtain rfl : back = more ++ t := by
    have hparts := h.text_eq
    rw [← hmore] at hparts
    simpa using hparts.symm
  refine ⟨more ++ t', by simp [← hmore], ?_, h.isBlock, h.terminates.congr ?_⟩
  · have hfound := h.found
    simp only [List.length_append] at hfits
    rw [atLineStart?_append ha hb] at hfound
    rw [atLineStart?_append ha hb']
    cases hsearch : atLineStart? read true a with
    | none =>
      rw [hsearch] at hfound
      obtain ⟨⟨offset, rest⟩, -, he⟩ := Option.map_eq_some_iff.mp hfound
      have hoffset : a.length + offset = front.length := congrArg Prod.fst he
      omega
    | some found =>
      obtain ⟨offset, rest⟩ := found
      rw [hsearch, List.drop_append_of_le_length (by omega)] at hfound
      simp only [Option.some.injEq, Prod.mk.injEq, List.append_left_inj] at hfound
      rw [List.drop_append_of_le_length (by omega), hfound.1, hfound.2]
  · cases more with
    | cons c more => exact .inr rfl
    | nil =>
      refine .inl (hblock.ends_break (hs.suffix ⟨front ++ lead, ?_⟩))
      simp [← hmore, hbody]

/-- The text before a declaration may be shorter, by a piece from the end of a line on. -/
theorem Located.before {piece : List Char}
    (h : Located read (a ++ (b ++ b')) (s ++ (piece ++ t)) front lead body terminator back)
    (hlength : a.length = s.length) (hpiece : b.length = piece.length) (ha : EndsLine a)
    (hfits : (s ++ piece).length ≤ front.length) (hb : ReadsWithin read a (b ++ b'))
    (hb' : ReadsWithin read a b') (hline : EndsLine b ∨ read b' = none) :
    ∃ front', Located read (a ++ b') (s ++ t) front' lead body terminator back := by
  obtain ⟨more, rfl⟩ : s ++ piece <+: front := by
    have hfront := List.prefix_append front (lead ++ (body ++ (terminator ++ back)))
    rw [← h.text_eq, ← List.append_assoc] at hfront
    exact List.prefix_of_prefix_length_le (List.prefix_append _ t) hfront hfits
  obtain rfl : t = more ++ (lead ++ (body ++ (terminator ++ back))) := by
    simpa using h.text_eq
  refine ⟨s ++ more, by simp, ?_, h.isBlock, h.terminates⟩
  have hfound := h.found
  rw [atLineStart?_append ha hb] at hfound
  cases hsearch : atLineStart? read true a with
  | some found =>
    obtain ⟨offset, rest⟩ := found
    have hlt := atLineStart?_lt hsearch
    rw [hsearch] at hfound
    simp only [Option.some.injEq, Prod.mk.injEq, List.length_append] at hfound
    omega
  | none =>
    rw [hsearch, Bool.true_or] at hfound
    obtain ⟨⟨offset, rest⟩, hbehind, he⟩ := Option.map_eq_some_iff.mp hfound
    simp only [Prod.mk.injEq, List.length_append] at he
    obtain ⟨hoffset, rfl⟩ := he
    have hplace : offset = b.length + more.length := by omega
    rw [hplace] at hbehind
    rw [atLineStart?_append ha hb', hsearch, Bool.true_or,
      atLineStart?_behind hbehind (hline.imp_left fun h => ⟨h, fun _ => rfl⟩)]
    have hlong : (a ++ (b ++ b')).drop (s.length + piece.length + more.length + lead.length) =
        b'.drop (more.length + lead.length) := by
      rw [← hlength, ← hpiece, Nat.add_assoc, Nat.add_assoc, List.drop_length_add_append,
        List.drop_length_add_append]
    have hshort : (a ++ b').drop (s.length + more.length + lead.length) =
        b'.drop (more.length + lead.length) := by
      rw [← hlength, Nat.add_assoc, List.drop_length_add_append]
    simp only [Option.map_some, Option.some.injEq, Prod.mk.injEq, List.length_append]
    exact ⟨by omega, hlong.trans hshort.symm⟩

end Around

/-! ## Tables and enums -/

theorem constant?_break (cs : List Char) : constant? ('\n' :: cs) = none := rfl

/-- A constant takes something in before its value. -/
theorem constant?_value {cs name value : List Char} (h : constant? cs = some (name, value)) :
    value.length < cs.length := by
  obtain ⟨a, b, c, d, ha, hb, hc, hd, rfl⟩ := constant?_eq_some h
  obtain ⟨-, rfl, -⟩ := word?_eq_some hc
  have hvalue : skipBlanks d <:+ a :=
    (skipBlanks_suffix d).trans ((dropText?_suffix hd).trans ((skipBlanks_suffix _).trans
      ((List.dropWhile_suffix _).trans (blanks?_suffix hb))))
  have hconst := dropText?_length ha
  have hexport := ((skipExport_suffix _).trans (skipInlineBlanks_suffix cs)).length_le
  have hlength := hvalue.length_le
  have hpos : 0 < "const".toList.length := by decide
  omega

theorem declarationReader_of_constant {read : List Char → Option (List Char)}
    (hnone : ∀ cs, constant? cs = none → read cs = none)
    (hsome : ∀ {cs name value rest}, constant? cs = some (name, value) → read cs = some rest →
      rest <:+ value ∧ ∃ after, rest = '(' :: after) : DeclarationReader read where
  atBreak cs := hnone _ (constant?_break cs)
  parts {cs rest} h := by
    cases hconstant : constant? cs with
    | none =>
      rw [hnone cs hconstant] at h
      cases h
    | some constant =>
      obtain ⟨hvalue, after, hafter⟩ := hsome hconstant h
      obtain ⟨lead, hlead⟩ := hvalue.trans (constant?_suffix hconstant)
      refine ⟨lead, after, ?_, hlead.symm, hafter⟩
      rintro rfl
      have hlength := constant?_value hconstant
      have hle := hvalue.length_le
      rw [← hlead, List.nil_append] at hlength
      omega

theorem reader_tableDeclaration (name : List Char) : DeclarationReader (tableDeclaration? name) := by
  refine declarationReader_of_constant (fun cs h => by rw [tableDeclaration?, h]; rfl) ?_
  intro cs constant value rest hconstant h
  simp only [tableDeclaration?, Option.bind_eq_bind, Option.bind_eq_some_iff, hconstant] at h
  obtain ⟨_, he, after, hfunction, argument, hargument, hrest⟩ := h
  cases he
  cases hrest
  obtain ⟨function, -, rfl⟩ := tableFunction?_eq hfunction
  refine ⟨(skipBlanks_suffix after).trans (List.suffix_append _ _), ?_⟩
  simp only [namedArgument?, Option.bind_eq_bind, Option.bind_eq_some_iff] at hargument
  obtain ⟨opened, hopen, -⟩ := hargument
  exact ⟨opened, openCall?_eq hopen⟩

theorem reader_enumDeclaration (name : List Char) : DeclarationReader (enumDeclaration? name) := by
  refine declarationReader_of_constant (fun cs h => by rw [enumDeclaration?, h]; rfl) ?_
  intro cs constant value rest hconstant h
  simp only [enumDeclaration?, Option.bind_eq_bind, Option.bind_eq_some_iff, hconstant] at h
  obtain ⟨_, he, ⟨function, after⟩, hfunction, opened, hopen, h⟩ := h
  cases he
  split at h
  · cases h
    obtain ⟨-, rfl, -⟩ := word?_eq_some hfunction
    exact ⟨(skipBlanks_suffix _).trans (List.dropWhile_suffix _), opened, openCall?_eq hopen⟩
  · cases h

/-- A table that is declared exists. -/
theorem tableExists_of_declaration {text name : List Char} {found : Nat × List Char}
    (h : atLineStart? (tableDeclaration? name) true (mask text) = some found) :
    tableExists text name = true := by
  obtain ⟨hmem, hread⟩ := atLineStart?_some h
  simp only [tableDeclaration?, Option.bind_eq_bind, Option.bind_eq_some_iff] at hread
  obtain ⟨⟨constant, value⟩, hconstant, after, hfunction, argument, hargument, hrest⟩ := hread
  refine anywhere_of_suffix ((constant?_suffix hconstant).trans (lineStarts_suffix hmem).1) ?_
  have hcalls : callsTable name value = true := by simp [callsTable, hfunction, hargument]
  cases value with
  | nil => cases hfunction
  | cons c value => simp [anywhere, hcalls]

theorem locateTable_iff {text name : List Char} {span : Span} : locateTable text name = .ok (some span) ↔
    declarationSpan (tableDeclaration? name) (mask text) text = .ok (some span) := by
  rw [locateTable]
  cases hspan : declarationSpan (tableDeclaration? name) (mask text) text with
  | error e => split <;> simp
  | ok span? =>
    cases span? with
    | none => split <;> simp
    | some found =>
      have hexists : tableExists text name = true := by
        rw [declarationSpan] at hspan
        split at hspan
        · cases hspan
        · rename_i hfound
          exact tableExists_of_declaration hfound
      simp [hexists]

end SchemaScaffold.Source
