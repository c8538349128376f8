import SchemaScaffold.Proofs.Source.Lines

/-!
The starts of lines, as a list. Finding the first declaration and listing all of them both go
through these starts, so it is enough to know what can be read at each of them. The lines of a table
after its first one declare nothing: every one of them comes to a character that no constant has
before its equals sign.
-/

namespace SchemaScaffold.Source

open Text

/-- What follows each start of a line. The flag tells whether the text itself starts a line. -/
def lineStarts : Bool → List Char → List (List Char)
  | _, [] => []
  | lineStart, c :: cs => (if lineStart then [c :: cs] else []) ++ lineStarts (c == '\n') cs

theorem lineStarts_append {a : List Char} (ha : EndsLine a) (b : List Char) (lineStart : Bool) :
    lineStarts lineStart (a ++ b) =
      (lineStarts lineStart a).map (· ++ b) ++ lineStarts (lineStart || !a.isEmpty) b := by
  induction a generalizing lineStart with
  | nil => simp [lineStarts]
  | cons c a ih =>
    have hflag : ((c == '\n') || !a.isEmpty) = true := by
      cases a with
      | nil => simpa using ha c rfl
      | cons d a => simp
    rw [List.cons_append, lineStarts, lineStarts, ih ha.tail, hflag]
    cases lineStart <;> simp

theorem lineStarts_suffix {lineStart : Bool} {cs x : List Char} (h : x ∈ lineStarts lineStart cs) :
    x <:+ cs ∧ x ≠ [] := by
  induction cs generalizing lineStart with
  | nil => cases h
  | cons c cs ih =>
    rw [lineStarts, List.mem_append] at h
    rcases h with h | h
    · have hx : x = c :: cs := by
        cases lineStart with
        | true => simpa using h
        | false => cases h
      rw [hx]
      exact ⟨List.suffix_refl _, by simp⟩
    · exact ⟨(ih h).1.trans (List.suffix_cons c cs), (ih h).2⟩

/-- What stands before the start of a line ends a line. -/
theorem lineStarts_front {cs x : List Char} (h : x ∈ lineStarts true cs) :
    ∃ front, cs = front ++ x ∧ EndsLine front := by
  have hall : ∀ (lineStart : Bool) (cs : List Char), x ∈ lineStarts lineStart cs →
      ∃ front, cs = front ++ x ∧ EndsLine front ∧ (front = [] → lineStart = true) := by
    intro lineStart cs h
    induction cs generalizing lineStart with
    | nil => cases h
    | cons c cs ih =>
      rw [lineStarts, List.mem_append] at h
      rcases h with h | h
      · cases lineStart with
        | true =>
          refine ⟨[], ?_, endsLine_nil, fun _ => rfl⟩
          simpa using (List.mem_singleton.mp h).symm
        | false => cases h
      · obtain ⟨front, rfl, hends, hflag⟩ := ih (c == '\n') h
        refine ⟨c :: front, rfl, fun d hd => ?_, by simp⟩
        by_cases hnil : front = []
        · subst hnil
          cases hd
          simpa using hflag rfl
        · rw [List.getLast?_cons, List.getLast?_eq_some_getLast hnil] at hd
          exact hends d (by rw [List.getLast?_eq_some_getLast hnil, ← hd]; rfl)
  obtain ⟨front, he, hends, -⟩ := hall true cs h
  exact ⟨front, he, hends⟩

/-- Nothing starts within a line. -/
theorem lineStarts_within {cs : List Char} (h : '\n' ∉ cs) : lineStarts false (cs ++ ['\n']) = [] := by
  induction cs with
  | nil => rfl
  | cons c cs ih =>
    have hc : (c == '\n') = false := by simpa using Ne.symm (List.ne_of_not_mem_cons h)
    rw [List.cons_append, lineStarts, hc, ih (List.not_mem_of_not_mem_cons h)]
    rfl

/-- One line starts once. -/
theorem lineStarts_line {body : List Char} (h : '\n' ∉ body) :
    lineStarts true (body ++ ['\n']) = [body ++ ['\n']] := by
  cases body with
  | nil => rfl
  | cons c cs =>
    have hc : (c == '\n') = false := by simpa using Ne.symm (List.ne_of_not_mem_cons h)
    rw [List.cons_append, lineStarts, hc, lineStarts_within (List.not_mem_of_not_mem_cons h)]
    rfl

/-- Where every start reads the same in front of more text, the first success is the same. -/
theorem atLineStart?_append {read : List Char → Option (List Char)} {a b : List Char}
    (ha : EndsLine a) {lineStart : Bool}
    (h : ∀ x ∈ lineStarts lineStart a, read (x ++ b) = (read x).map (· ++ b)) :
    atLineStart? read lineStart (a ++ b) =
      match atLineStart? read lineStart a with
      | some (offset, rest) => some (offset, rest ++ b)
      | none => (atLineStart? read (lineStart || !a.isEmpty) b).map fun (offset, rest) =>
          (a.length + offset, rest) := by
  induction a generalizing lineStart with
  | nil => simp [atLineStart?]
  | cons c a ih =>
    have hflag : ((c == '\n') || !a.isEmpty) = true := by
      cases a with
      | nil => simpa using ha c rfl
      | cons d a => simp
    have htail := ih ha.tail fun x hx => h x (by rw [lineStarts]; exact List.mem_append_right _ hx)
    rw [hflag] at htail
    have hhead : (if lineStart then read (c :: (a ++ b)) else none) =
        (if lineStart then read (c :: a) else none).map (· ++ b) := by
      cases lineStart with
      | false => rfl
      | true => exact h (c :: a) (by simp [lineStarts])
    rw [List.cons_append, atLineStart?, atLineStart?, hhead, htail]
    cases (if lineStart then read (c :: a) else none) with
    | some rest => rfl
    | none =>
      cases atLineStart? read (c == '\n') a with
      | some found => rfl
      | none =>
        have hempty : (lineStart || !(c :: a).isEmpty) = true := by simp
        rw [hempty]
        cases atLineStart? read true b with
        | none => rfl
        | some found => simp; omega

theorem atLineStart?_eq_none {read : List Char → Option (List Char)} {a : List Char}
    {lineStart : Bool} (h : ∀ x ∈ lineStarts lineStart a, read x = none) :
    atLineStart? read lineStart a = none := by
  induction a generalizing lineStart with
  | nil => rfl
  | cons c a ih =>
    have htail := ih fun x hx => h x (by rw [lineStarts]; exact List.mem_append_right _ hx)
    have hhead : (if lineStart then read (c :: a) else none) = none := by
      cases lineStart with
      | false => rfl
      | true => exact h (c :: a) (by simp [lineStarts])
    rw [atLineStart?, hhead, htail]
    rfl

/-- What can be read at the first start is found there. -/
theorem atLineStart?_here {read : List Char → Option (List Char)} {a rest : List Char} (hne : a ≠ [])
    (h : read a = some rest) : atLineStart? read true a = some (0, rest) := by
  obtain ⟨c, a, rfl⟩ := List.exists_cons_of_ne_nil hne
  rw [atLineStart?, if_pos rfl, h]

/-- What is found is found at the start of a line. -/
theorem atLineStart?_some {read : List Char → Option (List Char)} {a rest : List Char}
    {lineStart : Bool} {offset : Nat} (h : atLineStart? read lineStart a = some (offset, rest)) :
    a.drop offset ∈ lineStarts lineStart a ∧ read (a.drop offset) = some rest := by
  induction a generalizing lineStart offset with
  | nil => cases h
  | cons c a ih =>
    rw [atLineStart?] at h
    split at h
    · rename_i rest' hhead
      cases h
      cases lineStart with
      | false => cases hhead
      | true => exact ⟨by simp [lineStarts], hhead⟩
    · obtain ⟨⟨offset', rest'⟩, hfound, he⟩ := Option.map_eq_some_iff.mp h
      cases he
      obtain ⟨hmem, hread⟩ := ih hfound
      refine ⟨?_, hread⟩
      rw [lineStarts]
      exact List.mem_append_right _ hmem

/-! ## Lines at which nothing is read -/

/-- Lines at none of which `read` succeeds, whatever follows them. -/
structure Skips {α : Type} (read : List Char → Option α) (a : List Char) : Prop where
  endsLine : EndsLine a
  none : ∀ x ∈ lineStarts true a, ∀ rest, read (x ++ rest) = none

section Skips

variable {α : Type} {read : List Char → Option α}

theorem Skips.nil : Skips read [] := ⟨endsLine_nil, by simp [lineStarts]⟩

theorem Skips.append {a b : List Char} (ha : Skips read a) (hb : Skips read b) :
    Skips read (a ++ b) where
  endsLine := ha.endsLine.append hb.endsLine
  none := by
    intro x hx rest
    rw [lineStarts_append ha.endsLine, Bool.true_or, List.mem_append] at hx
    rcases hx with hx | hx
    · obtain ⟨y, hy, rfl⟩ := List.mem_map.mp hx
      rw [List.append_assoc]
      exact ha.none y hy _
    · exact hb.none x hx rest

theorem Skips.flatMap {β : Type} {f : β → List Char} {bs : List β} (h : ∀ b ∈ bs, Skips read (f b)) :
    Skips read (bs.flatMap f) := by
  induction bs with
  | nil => exact .nil
  | cons b bs ih =>
    rw [List.flatMap_cons]
    exact (h b (by simp)).append (ih fun c hc => h c (List.mem_cons_of_mem _ hc))

/-- A line at whose start nothing is read, before others. -/
theorem Skips.cons {line a : List Char} (hline : '\n' ∉ line) (ha : Skips read a)
    (h : ∀ rest, read (line ++ ['\n'] ++ a ++ rest) = Option.none) :
    Skips read (line ++ ['\n'] ++ a) where
  endsLine := (endsLine_concat line).append ha.endsLine
  none := by
    intro x hx rest
    rw [lineStarts_append (endsLine_concat line), Bool.true_or, lineStarts_line hline,
      List.map_singleton, List.singleton_append, List.mem_cons] at hx
    rcases hx with rfl | hx
    · exact h rest
    · exact ha.none x hx rest

theorem Skips.line {line : List Char} (hline : '\n' ∉ line)
    (h : ∀ rest, read (line ++ ['\n'] ++ rest) = Option.none) : Skips read (line ++ ['\n']) := by
  simpa using Skips.cons hline .nil fun rest => by simpa using h rest

/-- Nothing is read from a text that comes to `stop` after words and blanks. -/
def StopsAt (read : List Char → Option α) (stop : Char) : Prop :=
  ∀ front : List Char, (∀ c ∈ front, isBlank c = true ∨ isWordChar c = true) →
    ∀ rest, read (front ++ stop :: rest) = none

/-- Words and blanks up to such a character, and the rest of its line; the words may stand on
several lines. -/
theorem StopsAt.line {stop : Char} (h : StopsAt read stop) {front : List Char}
    (hfront : ∀ c ∈ front, isBlank c = true ∨ isWordChar c = true) {rest : List Char}
    (hline : '\n' ∉ stop :: rest) : Skips read (front ++ (stop :: rest ++ ['\n'])) where
  endsLine := by
    rw [← List.append_assoc]
    exact endsLine_concat _
  none := by
    have hstarts : ∀ {front : List Char} {lineStart : Bool},
        ∀ x ∈ lineStarts lineStart (front ++ (stop :: rest ++ ['\n'])),
          ∃ y, y <:+ front ∧ x = y ++ (stop :: rest ++ ['\n']) := by
      intro front lineStart x hx
      induction front generalizing lineStart with
      | nil =>
        have hstop : (stop == '\n') = false := by simpa using Ne.symm (List.ne_of_not_mem_cons hline)
        rw [List.nil_append, List.cons_append, lineStarts, hstop,
          lineStarts_within (List.not_mem_of_not_mem_cons hline), List.append_nil] at hx
        cases lineStart with
        | false => cases hx
        | true => exact ⟨[], List.suffix_refl _, by simpa using hx⟩
      | cons c front ih =>
        rw [List.cons_append, lineStarts, List.mem_append] at hx
        rcases hx with hx | hx
        · cases lineStart with
          | false => cases hx
          | true => exact ⟨c :: front, List.suffix_refl _, by simpa using hx⟩
        · obtain ⟨y, hy, rfl⟩ := ih hx
          exact ⟨y, hy.trans (List.suffix_cons c front), rfl⟩
    intro x hx more
    obtain ⟨y, hy, rfl⟩ := hstarts x hx
    rw [List.append_assoc, List.cons_append, List.cons_append]
    exact h y (fun c hc => hfront c (hy.subset hc)) _

/-- A reader that has to come to one mark after words and blanks does not get past another. -/
theorem StopsAt.of_before {mark stop : Char} (hmark : ¬ (isBlank mark = true ∨ isWordChar mark = true))
    (hblank : isBlank stop = false) (hword : isWordChar stop = false) (hne : stop ≠ mark)
    (hbefore : ∀ {cs : List Char} {a : α}, read cs = some a → ∃ front back, cs = front ++ mark :: back ∧
      ∀ c ∈ front, isBlank c = true ∨ isWordChar c = true) : StopsAt read stop := by
  intro front hfront rest
  rw [Option.eq_none_iff_forall_ne_some]
  intro a h
  obtain ⟨front', back, he, hfront'⟩ := hbefore h
  rcases List.append_eq_append_iff.mp he with ⟨more, rfl, hmore⟩ | ⟨more, rfl, hmore⟩
  · cases more with
    | nil => exact hne (List.cons.inj hmore).1
    | cons c more =>
      have hc := hfront' stop (by rw [(List.cons.inj hmore).1]; simp)
      simp [hblank, hword] at hc
  · cases more with
    | nil => exact hne (List.cons.inj hmore).1.symm
    | cons c more => exact hmark (hfront mark (by rw [(List.cons.inj hmore).1]; simp))

theorem skips_break (h : ∀ rest, read ('\n' :: rest) = none) : Skips read ['\n'] := by
  have hline : Skips read ([] ++ ['\n']) := Skips.line (by simp) h
  exact hline

end Skips

/-- What is looked for behind such lines is found behind them. -/
theorem Skips.atLineStart? {read : List Char → Option (List Char)} {a : List Char}
    (ha : Skips read a) (b : List Char) : atLineStart? read true (a ++ b) =
      (Source.atLineStart? read true b).map fun (offset, rest) => (a.length + offset, rest) := by
  have hnone : ∀ x ∈ lineStarts true a, read x = .none := fun x hx => by
    simpa using ha.none x hx []
  rw [atLineStart?_append ha.endsLine fun x hx => by rw [hnone x hx, ha.none x hx b]; rfl,
    atLineStart?_eq_none hnone, Bool.true_or]

/-! ## Lines that declare nothing -/

theorem forall_blank_or_word {s : List Char}
    (h : s.all (fun c => isBlank c || isWordChar c) = true) :
    ∀ c ∈ s, isBlank c = true ∨ isWordChar c = true := by
  intro c hc
  simpa using List.all_eq_true.mp h c hc

theorem isBlank_of_inline {cs : List Char} {c : Char} (h : c ∈ cs.takeWhile isInlineBlank) :
    isBlank c = true := by
  have hc := List.all_eq_true.mp (List.all_takeWhile (p := isInlineBlank) (l := cs)) c h
  simp only [isInlineBlank, Bool.or_eq_true, beq_iff_eq] at hc
  rcases hc with rfl | rfl <;> decide

/-- Before its equals sign a constant has words and blanks only. -/
theorem constant?_before {cs name value : List Char} (h : constant? cs = some (name, value)) :
    ∃ front back, cs = front ++ '=' :: back ∧
      ∀ c ∈ front, isBlank c = true ∨ isWordChar c = true := by
  obtain ⟨a, b, c, d, ha, hb, hc, hd, -⟩ := constant?_eq_some h
  have hblank : ∀ {cs : List Char}, ∀ x ∈ cs.takeWhile isBlank, isBlank x = true := fun x hx =>
    List.all_eq_true.mp List.all_takeWhile x hx
  have hblanks : ∀ {cs rest : List Char}, blanks? cs = some rest →
      cs = cs.takeWhile isBlank ++ rest := by
    intro cs rest h
    unfold blanks? at h
    split at h
    · cases h
      exact List.takeWhile_append_dropWhile.symm
    · cases h
  obtain ⟨exported, hexport, hwords⟩ : ∃ exported,
      skipInlineBlanks cs = exported ++ skipExport (skipInlineBlanks cs) ∧
        ∀ x ∈ exported, isBlank x = true ∨ isWordChar x = true := by
    unfold skipExport
    cases he : (dropText? "export".toList (skipInlineBlanks cs)).bind blanks? with
    | none => exact ⟨[], rfl, by simp⟩
    | some rest =>
      obtain ⟨r, hr, hb⟩ := Option.bind_eq_some_iff.mp he
      refine ⟨"export".toList ++ r.takeWhile isBlank, ?_, ?_⟩
      · rw [Option.getD_some, List.append_assoc, ← hblanks hb, dropText?_eq hr]
      · rw [List.forall_mem_append]
        exact ⟨forall_blank_or_word (by decide), fun x hx => .inl (hblank x hx)⟩
  obtain ⟨rfl, rfl, -⟩ := word?_eq_some hc
  refine ⟨cs.takeWhile isInlineBlank ++ (exported ++ ("const".toList ++ (a.takeWhile isBlank ++
    (b.takeWhile isWordChar ++ (b.dropWhile isWordChar).takeWhile isBlank)))), d, ?_, ?_⟩
  · have hd' : skipBlanks (b.dropWhile isWordChar) = '=' :: d := dropText?_eq hd
    simp only [List.append_assoc, ← hd', skipBlanks, List.takeWhile_append_dropWhile]
    rw [← hblanks hb, ← dropText?_eq ha, ← hexport]
    exact List.takeWhile_append_dropWhile.symm
  · simp only [List.forall_mem_append]
    exact ⟨fun x hx => .inl (isBlank_of_inline hx), hwords, forall_blank_or_word (by decide),
      fun x hx => .inl (hblank x hx),
      fun x hx => .inr (List.all_eq_true.mp List.all_takeWhile x hx),
      fun x hx => .inl (hblank x hx)⟩

/-- A line that comes to another character first declares no constant. -/
theorem stopsAt_constant? {stop : Char} (hblank : isBlank stop = false)
    (hword : isWordChar stop = false) (hequals : stop ≠ '=') : StopsAt constant? stop :=
  .of_before (by decide) hblank hword hequals fun h => constant?_before h

/-- Lines none of which declares a constant, whatever follows them. -/
abbrev Silent (a : List Char) : Prop := Skips constant? a

/-- Lines that declare no constant declare nothing that is a constant. -/
theorem Skips.of_silent {α : Type} {read : List Char → Option α}
    (hread : ∀ cs, constant? cs = .none → read cs = .none) {a : List Char} (ha : Silent a) :
    Skips read a :=
  ⟨ha.endsLine, fun x hx rest => hread _ (ha.none x hx rest)⟩

/-- Words and blanks up to such a character, and the rest of its line. -/
theorem silent_line {front : List Char} (hfront : ∀ c ∈ front, isBlank c = true ∨ isWordChar c = true)
    {stop : Char} (hblank : isBlank stop = false) (hword : isWordChar stop = false)
    (hequals : stop ≠ '=') {rest : List Char} (hline : '\n' ∉ stop :: rest) :
    Silent (front ++ (stop :: rest ++ ['\n'])) :=
  (stopsAt_constant? hblank hword hequals).line hfront hline

/-- Nothing is declared on a line that is blanked out. -/
theorem constant?_blanked {line : List Char} (h : '\n' ∉ line) (rest : List Char) :
    constant? (blanked line ++ '\n' :: rest) = none := by
  have hskip : skipInlineBlanks (blanked line ++ '\n' :: rest) = '\n' :: rest := by
    have hblank : ∀ c ∈ blanked line, isInlineBlank c = true := by
      intro c hc
      obtain ⟨d, hd, rfl⟩ := List.mem_map.mp hc
      have hne : d ≠ '\n' := fun he => h (he ▸ hd)
      simp [hne, isInlineBlank]
    rw [skipInlineBlanks, List.dropWhile_append_of_pos hblank]
    rfl
  rw [constant?, hskip]
  rfl

theorem silent_break : Silent ['\n'] := skips_break fun _ => rfl

end SchemaScaffold.Source
