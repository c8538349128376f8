import SchemaScaffold.Proofs.Source.Tables

/-!
Comments between two texts. Where the reader of lexemes is in plain code, a comment of its own lines
is blanked out and nothing else changes: what stands before it and behind it is read as without it.
A table call has blanks at the ends of its lines only where any number of them may stand, so a
comment there neither makes a call nor breaks one.
-/

namespace SchemaScaffold.Source

open Text

/-- A text whose quotes and comment openers all stand in literals and comments: the reader is in
plain code at its end. A `//` is always read as a comment. -/
structure Settled (cs : List Char) : Prop where
  quotes : ∀ c, isQuote c = true → .char c ∉ lexemes cs
  openers : ¬ [.char '/', .char '*'] <:+: lexemes cs

/-- Whether no quote and no comment opener is among the single characters. -/
def isSettled : List Lexeme → Bool
  | [] => true
  | .char c :: lexemes =>
    !isQuote c && !(c == '/' && lexemes.head? == some (.char '*')) && isSettled lexemes
  | _ :: lexemes => isSettled lexemes

theorem settled_of_check {cs : List Char} (h : isSettled (lexemes cs) = true) : Settled cs := by
  have hall : ∀ ls : List Lexeme, isSettled ls = true →
      (∀ c, isQuote c = true → .char c ∉ ls) ∧ ¬ [.char '/', .char '*'] <:+: ls := by
    intro ls
    fun_induction isSettled ls with
    | case1 => simp
    | case2 c ls ih =>
      intro h
      simp only [Bool.and_eq_true, Bool.not_eq_true', Bool.and_eq_false_iff, beq_eq_false_iff_ne] at h
      obtain ⟨⟨hquote, hopen⟩, hls⟩ := h
      obtain ⟨hquotes, hopeners⟩ := ih hls
      refine ⟨fun d hd hmem => ?_, fun hin => ?_⟩
      · rcases List.mem_cons.mp hmem with he | hmem
        · obtain rfl : d = c := by simpa using he
          rw [hquote] at hd
          cases hd
        · exact hquotes d hd hmem
      · rcases List.infix_cons_iff.mp hin with ⟨rest, he⟩ | hin
        · cases he
          simp at hopen
        · exact hopeners hin
    | case3 l ls hchar ih =>
      intro h
      obtain ⟨hquotes, hopeners⟩ := ih h
      refine ⟨fun d hd hmem => ?_, fun hin => ?_⟩
      · rcases List.mem_cons.mp hmem with he | hmem
        · exact hchar d he.symm
        · exact hquotes d hd hmem
      · rcases List.infix_cons_iff.mp hin with ⟨rest, he⟩ | hin
        · cases he
          exact hchar _ rfl
        · exact hopeners hin
  exact ⟨(hall _ h).1, (hall _ h).2⟩

/-- Nothing reaches out of a settled text that ends a line. -/
theorem Settled.seam {a : List Char} (h : Settled a) (hline : EndsLine a) (b : List Char) :
    Seam a b where
  endsLine := hline
  backtick _ := h.quotes _ rfl
  comment _ := h.openers

/-- A comment that takes up its lines: a line comment, or a block comment with a line break. -/
inductive IsComment : List Char → Prop
  | line {body : List Char} : '\n' ∉ body → IsComment ('/' :: '/' :: (body ++ ['\n']))
  | block {body : List Char} : ¬ ['*', '/'] <:+: body →
      IsComment ('/' :: '*' :: (body ++ ['*', '/', '\n']))

theorem isBlank_blanked {cs : List Char} : ∀ c ∈ blanked cs, isBlank c = true := by
  intro c hc
  obtain ⟨d, -, rfl⟩ := List.mem_map.mp hc
  by_cases hd : d = '\n'
  · simp only [hd]
    decide
  · simp only [beq_iff_eq, hd, if_false]
    decide

/-- The first closing mark behind a text that has none is the one that follows. -/
theorem closeComment?_marked {body : List Char} (h : ¬ ['*', '/'] <:+: body) (rest : List Char) :
    closeComment? (body ++ '*' :: '/' :: rest) = some (body ++ ['*', '/'], rest) := by
  induction body with
  | nil => rfl
  | cons c body ih =>
    have hstart : ∀ cs, c = '*' → body ++ '*' :: '/' :: rest = '/' :: cs → False := by
      rintro cs rfl he
      cases body with
      | nil => cases he
      | cons d body =>
        obtain rfl : d = '/' := (List.cons.inj he).1
        exact h (List.prefix_append ['*', '/'] body).isInfix
    rw [List.cons_append, closeComment?, ih fun hin => h (List.infix_cons hin)]
    · rfl
    · exact hstart

/-- A comment is blanked out, and what follows it is read on its own. -/
theorem IsComment.mask {comment : List Char} (h : IsComment comment) (rest : List Char) :
    Source.mask (comment ++ rest) = blanked comment ++ Source.mask rest := by
  have hbreak : next '\n' rest = (.char '\n', rest) := rfl
  cases h with
  | @line body hbody =>
    have htake : (body ++ '\n' :: rest).takeWhile (· != '\n') = body ∧
        (body ++ '\n' :: rest).dropWhile (· != '\n') = '\n' :: rest := by
      have hall : ∀ c ∈ body, (c != '\n') = true := fun c hc => by
        simpa using fun he : c = '\n' => hbody (he ▸ hc)
      rw [List.takeWhile_append_of_pos hall, List.dropWhile_append_of_pos hall]
      simp
    have hnext : next '/' ('/' :: (body ++ '\n' :: rest)) =
        (.comment ('/' :: '/' :: body), '\n' :: rest) := by
      simp [next, isQuote, htake]
    rw [List.cons_append, List.cons_append, List.append_assoc, List.singleton_append, mask_cons,
      hnext, mask_cons, hbreak]
    simp [Lexeme.masked, Lexeme.text, blanked]
  | @block body hbody =>
    have hnext : next '/' ('*' :: (body ++ '*' :: '/' :: '\n' :: rest)) =
        (.comment ('/' :: '*' :: (body ++ ['*', '/'])), '\n' :: rest) := by
      simp [next, isQuote, blockComment, closeComment?_marked hbody]
    have hparts : body ++ ['*', '/', '\n'] ++ rest = body ++ '*' :: '/' :: '\n' :: rest := by simp
    rw [List.cons_append, List.cons_append, hparts, mask_cons, hnext, mask_cons, hbreak]
    simp [Lexeme.masked, Lexeme.text, blanked]

/-! ## Reading with and without a gap -/

/-- Two texts of which the first has a gap that the second lacks, if they are not the same. What
stands before the gap ends a line. -/
inductive Gapped (gap : List Char) : List Char → List Char → Prop
  | same (cs : List Char) : Gapped gap cs cs
  | apart {a : List Char} (b : List Char) : EndsLine a → a ≠ [] → Gapped gap (a ++ (gap ++ b)) (a ++ b)

section Gapped

variable {gap : List Char}

/-- Steps that read alike read alike one after the other. -/
theorem rel_bind {α β α' β' : Type} {r : α → β → Prop} {r' : α' → β' → Prop} {x : Option α}
    {y : Option β} {f : α → Option α'} {g : β → Option β'} (h : Option.Rel r x y)
    (hfg : ∀ {a b}, r a b → Option.Rel r' (f a) (g b)) : Option.Rel r' (x.bind f) (y.bind g) := by
  cases h with
  | some hab => exact hfg hab
  | none => exact .none

theorem isSome_of_rel {α β : Type} {r : α → β → Prop} {x : Option α} {y : Option β}
    (h : Option.Rel r x y) : x.isSome = y.isSome := by
  cases h <;> rfl

theorem rel_refl {x : Option (List Char)} : Option.Rel (Gapped gap) x x := by
  cases x with
  | none => exact .none
  | some cs => exact .some (.same cs)

theorem Gapped.dropText? {expected : List Char} (hexpected : '\n' ∉ expected) {s t : List Char}
    (h : Gapped gap s t) :
    Option.Rel (Gapped gap) (Text.dropText? expected s) (Text.dropText? expected t) := by
  cases h with
  | same cs => exact rel_refl
  | @apart a b ha hne =>
    rw [ha.dropText? hexpected hne, ha.dropText? hexpected hne]
    cases hdrop : Text.dropText? expected a with
    | none => exact .none
    | some rest =>
      exact .some (.apart b (ha.suffix (dropText?_suffix hdrop)) (ha.rest_ne_nil hexpected hne hdrop))

theorem Gapped.quote? {s t : List Char} (h : Gapped gap s t) :
    Option.Rel (Gapped gap) (Source.quote? isQuote s) (Source.quote? isQuote t) := by
  cases h with
  | same cs => exact rel_refl
  | @apart a b ha hne =>
    obtain ⟨c, a, rfl⟩ := List.exists_cons_of_ne_nil hne
    rw [List.cons_append, List.cons_append, Source.quote?, Source.quote?]
    by_cases hc : isQuote c = true
    · rw [if_pos hc, if_pos hc]
      have hbreak : c ≠ '\n' := by
        rintro rfl
        cases hc
      exact .some (.apart b ha.tail (List.ne_nil_of_mem (ha.mem_tail hbreak)))
    · rw [if_neg hc, if_neg hc]
      exact .none

theorem Gapped.tableFunction? {s t : List Char} (h : Gapped gap s t) :
    Option.Rel (Gapped gap) (Source.tableFunction? s) (Source.tableFunction? t) := by
  cases h with
  | same cs => exact rel_refl
  | @apart a b ha hne =>
    rw [tableFunction?_endsLine ha hne, tableFunction?_endsLine ha hne]
    cases hfunction : Source.tableFunction? a with
    | none => exact .none
    | some rest =>
      obtain ⟨name, hname, hdrop⟩ := List.exists_of_findSome?_eq_some hfunction
      have hlines : ∀ function ∈ tableFunctions, '\n' ∉ function.toList := by decide
      have hline := hlines name hname
      exact .some (.apart b (ha.suffix (dropText?_suffix hdrop)) (ha.rest_ne_nil hline hne hdrop))

variable (hgap : ∀ c ∈ gap, isBlank c = true)

include hgap

/-- Where blanks are skipped, a gap is skipped with them. -/
theorem Gapped.skipBlanks {s t : List Char} (h : Gapped gap s t) :
    Gapped gap (Source.skipBlanks s) (Source.skipBlanks t) := by
  cases h with
  | same cs => exact .same _
  | @apart a b ha hne =>
    by_cases hblank : ∀ c ∈ a, isBlank c = true
    · simp only [Source.skipBlanks, List.dropWhile_append_of_pos hblank,
        List.dropWhile_append_of_pos hgap]
      exact .same _
    · have hrest : Source.skipBlanks a ≠ [] := by
        intro hnil
        have hparts : a.takeWhile isBlank ++ Source.skipBlanks a = a :=
          List.takeWhile_append_dropWhile
        rw [hnil, List.append_nil] at hparts
        exact hblank (hparts ▸ List.all_eq_true.mp List.all_takeWhile)
      rw [skipBlanks_append_of_ne hrest, skipBlanks_append_of_ne hrest]
      exact .apart b (ha.suffix (skipBlanks_suffix a)) hrest

theorem Gapped.namedArgument? {name : List Char} (hname : '\n' ∉ name) {s t : List Char}
    (h : Gapped gap s t) :
    Option.Rel (Gapped gap) (Source.namedArgument? name s) (Source.namedArgument? name t) :=
  rel_bind ((h.skipBlanks hgap).dropText? (by decide)) fun h =>
    rel_bind (h.skipBlanks hgap).quote? fun h =>
      rel_bind (h.dropText? hname) fun h => h.quote?

/-- A call is one with the gap as well as without it. -/
theorem Gapped.callsTable {name : List Char} (hname : '\n' ∉ name) {s t : List Char}
    (h : Gapped gap s t) : Source.callsTable name s = Source.callsTable name t :=
  isSome_of_rel (rel_bind h.tableFunction? fun h => h.namedArgument? hgap hname)

omit hgap in
/-- No call starts with a blank. -/
theorem callsTable_blank {name cs : List Char} {c : Char} (h : isBlank c = true) :
    Source.callsTable name (c :: cs) = false := by
  have hfunction : Source.tableFunction? (c :: cs) = none := by
    have hfirst : c ≠ 'm' ∧ c ≠ 'p' ∧ c ≠ 's' := by
      refine ⟨?_, ?_, ?_⟩ <;>
        · rintro rfl
          exact absurd h (by decide)
    simp [Source.tableFunction?, tableFunctions, Text.dropText?, Ne.symm hfirst.1,
      Ne.symm hfirst.2.1, Ne.symm hfirst.2.2]
  rw [Source.callsTable, hfunction]
  rfl

/-- A gap behind a text that ends a line changes no call. -/
theorem anywhere_gap {name : List Char} (hname : '\n' ∉ name) (b : List Char) :
    ∀ {a : List Char}, EndsLine a → anywhere (callsTable name) (a ++ (gap ++ b)) =
      anywhere (callsTable name) (a ++ b)
  | [], _ => by
    rw [List.nil_append, List.nil_append]
    induction gap with
    | nil => rfl
    | cons c gap ih =>
      have hc : isBlank c = true := hgap c (by simp)
      rw [List.cons_append, anywhere, callsTable_blank hc, Bool.false_or,
        ih fun d hd => hgap d (List.mem_cons_of_mem _ hd)]
  | c :: a, ha => by
    have hhere : callsTable name (c :: (a ++ (gap ++ b))) = callsTable name (c :: (a ++ b)) :=
      Gapped.callsTable hgap hname (.apart b ha (by simp))
    rw [List.cons_append, List.cons_append, anywhere, anywhere, hhere,
      anywhere_gap hname b ha.tail]

end Gapped

/-- A comment in plain code, on lines of its own, makes no table exist and hides none, whatever it
holds. -/
theorem tableExists_comment {front comment name : List Char} (hline : EndsLine front)
    (hsettled : Settled front) (hcomment : IsComment comment) (hname : ∀ c ∈ name, isBlank c = false)
    (back : List Char) :
    tableExists (front ++ comment ++ back) name = tableExists (front ++ back) name := by
  have hbreak : '\n' ∉ name := fun h => absurd (hname _ h) (by decide)
  rw [tableExists, tableExists, List.append_assoc, mask_append (hsettled.seam hline _),
    mask_append (hsettled.seam hline _), hcomment.mask]
  exact anywhere_gap isBlank_blanked hbreak _ hline.mask

/-- A declaration in a comment between the two lines of another one. -/
theorem tableExists_comment_between :
    let front := "const url = \"https://x.io\"; // it's \x60\nexport const users = pgTable(\n".toList
    let comment := "/* was: pgTable(\"posts\", \"//\" */\n".toList
    let back := "\"users\", \x7b\x7d);\n".toList
    EndsLine front ∧ Settled front ∧ IsComment comment ∧
      (∀ c ∈ "users".toList, isBlank c = false) ∧ (∀ c ∈ "posts".toList, isBlank c = false) ∧
      tableExists (front ++ comment ++ back) "users".toList = tableExists (front ++ back) "users".toList ∧
      tableExists (front ++ comment ++ back) "posts".toList = tableExists (front ++ back) "posts".toList ∧
      tableExists (front ++ back) "users".toList = true := by
  intro front comment back
  have hline : EndsLine front := by decide +kernel
  have hsettled : Settled front := settled_of_check (by decide +kernel)
  have hcomment : IsComment comment :=
    @IsComment.block " was: pgTable(\"posts\", \"//\" ".toList (by decide +kernel)
  have husers : ∀ c ∈ "users".toList, isBlank c = false :=
    List.forall_mem_iff_forall_getElem.mpr (by decide)
  have hposts : ∀ c ∈ "posts".toList, isBlank c = false :=
    List.forall_mem_iff_forall_getElem.mpr (by decide)
  exact ⟨hline, hsettled, hcomment, husers, hposts,
    tableExists_comment hline hsettled hcomment husers back,
    tableExists_comment hline hsettled hcomment hposts back, by decide +kernel⟩

end SchemaScaffold.Source
