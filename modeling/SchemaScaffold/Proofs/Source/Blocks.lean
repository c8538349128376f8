import Mathlib.Data.List.Basic
import SchemaScaffold.Proofs.Outcome
import SchemaScaffold.Proofs.Source.Reading

/-!
Blocks by their grammar. A text is read lexeme by lexeme, and a block is an opening bracket, items,
and the bracket that closes it, where an item is a literal, a comment, any other character, or a
block. Bracket matching keeps a stack of awaited closers; what it accepts is exactly that, because
every closer that it awaits ends a run of items.
-/

namespace SchemaScaffold.Source

open Text

/-! ## The grammar -/

/-- The text of a literal after its opening quote, up to the first quote that no backslash escapes.
Only a backtick literal goes over a line break that is not escaped. -/
inductive LiteralEnd (quote : Char) : List Char → Prop
  | close : LiteralEnd quote [quote]
  | escaped {c : Char} {cs : List Char} : LiteralEnd quote cs → LiteralEnd quote ('\\' :: c :: cs)
  | plain {c : Char} {cs : List Char} : c ≠ '\\' → c ≠ quote →
      (c = '\n' → isMultiline quote = true) → LiteralEnd quote cs → LiteralEnd quote (c :: cs)

/-- The text of a block comment after its opener, up to the first closing mark. -/
def CommentEnd (cs : List Char) : Prop := ['*', '/'] <:+ cs ∧ ¬ ['*', '/'] <:+: cs.dropLast

/-- A lexeme stands where its text is read, in front of the text that follows. -/
inductive Stands : Lexeme → List Char → Prop
  | literal {quote : Char} {body rest : List Char} : isQuote quote = true → LiteralEnd quote body →
      Stands (.literal (quote :: body)) rest
  | lineComment {body rest : List Char} : '\n' ∉ body → (∀ c ∈ rest.head?, c = '\n') →
      Stands (.comment ('/' :: '/' :: body)) rest
  | blockComment {body rest : List Char} : CommentEnd body →
      Stands (.comment ('/' :: '*' :: body)) rest
  | char {c : Char} {rest : List Char} : isQuote c = false →
      (c = '/' → ∀ d ∈ rest.head?, d ≠ '/' ∧ d ≠ '*') → Stands (.char c) rest

/-- The characters of a row of lexemes. -/
def textOf (lexemes : List Lexeme) : List Char := lexemes.flatMap Lexeme.text

/-- A row of lexemes is the reading of its text, in front of the text that follows. -/
def ReadAs : List Lexeme → List Char → Prop
  | [], _ => True
  | l :: lexemes, rest => Stands l (textOf lexemes ++ rest) ∧ ReadAs lexemes rest

/-- A literal, a comment, a character that is no bracket, or a block: an opening bracket, items, and
the bracket that closes it. -/
inductive Item : List Lexeme → Prop
  | literal (text : List Char) : Item [.literal text]
  | comment (text : List Char) : Item [.comment text]
  | other {c : Char} : closer? c = none → isCloser c = false → Item [.char c]
  | block {opening closing : Char} {items : List (List Lexeme)} : closer? opening = some closing →
      (∀ item ∈ items, Item item) → Item (.char opening :: (items.flatten ++ [.char closing]))

/-- An opening bracket, items, and the bracket that closes it. -/
def IsBlock (lexemes : List Lexeme) : Prop :=
  ∃ (opening closing : Char) (items : List (List Lexeme)), closer? opening = some closing ∧
    (∀ item ∈ items, Item item) ∧ lexemes = .char opening :: (items.flatten ++ [.char closing])

/-- The text from one offset through the other is a block. -/
def BlockThrough (source : List Char) (start last : Nat) : Prop :=
  last < source.length ∧ ∃ lexemes, IsBlock lexemes ∧ ReadAs lexemes (source.drop (last + 1)) ∧
    (source.take (last + 1)).drop start = textOf lexemes

/-- Blanks, a semicolon or none, blanks, a line break or none. -/
def IsTerminator (cs : List Char) : Prop :=
  ∃ before semicolon after lineBreak : List Char, cs = before ++ semicolon ++ after ++ lineBreak ∧
    (∀ c ∈ before, isInlineBlank c = true) ∧ (semicolon = [] ∨ semicolon = [';']) ∧
    (∀ c ∈ after, isInlineBlank c = true) ∧ (lineBreak = [] ∨ lineBreak = ['\n'])

/-- The longest terminator at the start of a text. -/
def LongestTerminator (terminator cs : List Char) : Prop :=
  (IsTerminator terminator ∧ terminator <+: cs) ∧
    ∀ other, IsTerminator other → other <+: cs → other.length ≤ terminator.length

/-! ## Lexemes -/

@[simp] theorem textOf_cons (l : Lexeme) (lexemes : List Lexeme) :
    textOf (l :: lexemes) = l.text ++ textOf lexemes :=
  List.flatMap_cons

@[simp] theorem textOf_append (a b : List Lexeme) : textOf (a ++ b) = textOf a ++ textOf b :=
  List.flatMap_append

theorem Stands.text_ne_nil {l : Lexeme} {rest : List Char} (h : Stands l rest) : l.text ≠ [] := by
  cases h <;> simp [Lexeme.text]

/-- What stands where it does is told by the next character. -/
theorem Stands.congr {l : Lexeme} {rest rest' : List Char} (h : Stands l rest)
    (hhead : rest'.head? = rest.head?) : Stands l rest' := by
  cases h with
  | literal hquote hbody => exact .literal hquote hbody
  | lineComment hline hend => exact .lineComment hline (hhead ▸ hend)
  | blockComment hbody => exact .blockComment hbody
  | char hquote hslash => exact .char hquote (hhead ▸ hslash)

theorem ReadAs.append {a b : List Lexeme} {rest : List Char} :
    ReadAs (a ++ b) rest ↔ ReadAs a (textOf b ++ rest) ∧ ReadAs b rest := by
  induction a with
  | nil => simp [ReadAs]
  | cons l a ih => simp [ReadAs, ih, and_assoc]

/-- A reading does not look further than its last bracket. -/
theorem ReadAs.congr_bracket {lexemes : List Lexeme} {c : Char} (hc : c ≠ '/') {rest : List Char}
    (h : ReadAs (lexemes ++ [.char c]) rest) (rest' : List Char) :
    ReadAs (lexemes ++ [.char c]) rest' := by
  induction lexemes with
  | nil =>
    obtain ⟨hstands, -⟩ := h
    cases hstands with
    | char hquote => exact ⟨.char hquote fun he => absurd he hc, trivial⟩
  | cons l lexemes ih =>
    obtain ⟨hstands, h⟩ := h
    refine ⟨hstands.congr ?_, ih h⟩
    have h : ReadAs (lexemes ++ [.char c]) rest := h
    show (textOf (lexemes ++ [.char c]) ++ rest').head? = (textOf (lexemes ++ [.char c]) ++ rest).head?
    obtain ⟨next, others, hnext⟩ := List.exists_cons_of_ne_nil
      (show lexemes ++ [Lexeme.char c] ≠ [] by simp)
    rw [hnext] at h ⊢
    obtain ⟨d, ds, hd⟩ := List.exists_cons_of_ne_nil h.1.text_ne_nil
    simp [hd]

/-! ## Skipping a lexeme -/

theorem ne_backslash_of_isQuote {quote : Char} (h : isQuote quote = true) : quote ≠ '\\' := by
  rintro rfl
  cases h

theorem skipString?_cons {quote c : Char} (hc : c ≠ '\\') (cs : List Char) :
    skipString? quote (c :: cs) =
      if c == quote then some cs
      else if c == '\n' && !isMultiline quote then none
      else skipString? quote cs := by
  rw [skipString?]
  · exact fun he _ => hc he
  · exact fun _ _ he _ => hc he

theorem LiteralEnd.skips {quote : Char} (hquote : isQuote quote = true) {body : List Char}
    (h : LiteralEnd quote body) (rest : List Char) :
    skipString? quote (body ++ rest) = some rest := by
  induction h with
  | close =>
    rw [List.singleton_append, skipString?_cons (ne_backslash_of_isQuote hquote), beq_self_eq_true,
      if_pos rfl]
  | escaped _ ih => simpa [skipString?] using ih
  | plain hesc hne hline _ ih =>
    rw [List.cons_append, skipString?_cons hesc, ih, if_neg (by simpa using hne), if_neg]
    simpa using hline

/-- What is skipped is a literal. -/
theorem literalEnd_of_skip {quote : Char} {cs rest : List Char}
    (h : skipString? quote cs = some rest) : ∃ body, cs = body ++ rest ∧ LiteralEnd quote body := by
  fun_induction skipString? quote cs with
  | case1 => cases h
  | case2 => cases h
  | case3 c cs ih =>
    obtain ⟨body, rfl, hbody⟩ := ih h
    exact ⟨'\\' :: c :: body, rfl, .escaped hbody⟩
  | case4 c cs _ _ hc =>
    cases h
    rw [beq_iff_eq] at hc
    exact ⟨[c], rfl, hc ▸ .close⟩
  | case5 => cases h
  | case6 c cs hnil hesc hc hline ih =>
    obtain ⟨body, rfl, hbody⟩ := ih h
    exact ⟨c :: body, rfl, .plain (ne_backslash hnil hesc) (by simpa using hc) (by simpa using hline)
      hbody⟩

theorem CommentEnd.tail {c : Char} {cs : List Char} (h : CommentEnd (c :: cs))
    (hne : c :: cs ≠ ['*', '/']) : CommentEnd cs := by
  obtain ⟨hend, hfirst⟩ := h
  have hcs : cs ≠ [] := by
    rintro rfl
    have := hend.length_le
    simp at this
  refine ⟨?_, fun hin => hfirst ?_⟩
  · rcases List.suffix_cons_iff.mp hend with he | hend
    · exact absurd he.symm hne
    · exact hend
  · rw [List.dropLast_cons_of_ne_nil hcs]
    exact List.infix_cons hin

/-- A comment is skipped up to its first closing mark. -/
theorem CommentEnd.skips {body : List Char} (h : CommentEnd body) (rest : List Char) :
    skipComment? (body ++ rest) = some rest := by
  have hclose : closeComment? (body ++ rest) = some (body, rest) := by
    induction body with
    | nil => exact absurd h.1.length_le (by simp)
    | cons c body ih =>
      by_cases hmark : c :: body = ['*', '/']
      · rw [hmark]
        rfl
      · have hstart : ∀ ds, c = '*' → body ++ rest = '/' :: ds → False := by
          rintro ds rfl he
          cases body with
          | nil => exact absurd h.1.length_le (by simp)
          | cons d body =>
            obtain ⟨rfl, rfl⟩ : d = '/' ∧ body ++ rest = ds := by simpa using he
            have hbody : body ≠ [] := fun hnil => hmark (by rw [hnil])
            refine h.2 ?_
            rw [List.dropLast_cons_of_ne_nil (by simp), List.dropLast_cons_of_ne_nil hbody]
            exact (List.prefix_append ['*', '/'] body.dropLast).isInfix
        rw [List.cons_append, closeComment?, ih (h.tail hmark)]
        · rfl
        · exact hstart
  rw [skipComment?, hclose]
  rfl

/-- What is skipped is a comment. -/
theorem commentEnd_of_skip {cs rest : List Char} (h : skipComment? cs = some rest) :
    ∃ body, cs = body ++ rest ∧ CommentEnd body := by
  obtain ⟨⟨body, rest'⟩, hclose, rfl⟩ := Option.map_eq_some_iff.mp h
  refine ⟨body, (closeComment?_append hclose).symm, closeComment?_suffix hclose, ?_⟩
  clear h
  fun_induction closeComment? cs generalizing body with
  | case1 => cases hclose
  | case2 => cases hclose; decide
  | case3 c cs hc ih =>
    obtain ⟨⟨body', _⟩, hb, he⟩ := Option.map_eq_some_iff.mp hclose
    cases he
    have hbody : body' ≠ [] := by
      rintro rfl
      exact absurd (closeComment?_suffix hb).length_le (by simp)
    rw [List.dropLast_cons_of_ne_nil hbody, List.infix_cons_iff, not_or]
    refine ⟨?_, ih _ hb⟩
    rintro ⟨t, ht⟩
    have hcs := closeComment?_append hb
    obtain ⟨rfl, hdrop⟩ : '*' = c ∧ '/' :: t = body'.dropLast := by simpa using ht
    refine hc (t ++ ([body'.getLast hbody] ++ rest')) rfl ?_
    rw [← hcs, ← List.cons_append, hdrop, ← List.append_assoc, List.dropLast_concat_getLast]

/-! ## Bracket matching -/

/-- Rows of items, each ended by the closer that was awaited, innermost first. -/
inductive Closing : List Char → List Lexeme → Prop
  | last {c : Char} {items : List (List Lexeme)} : (∀ item ∈ items, Item item) →
      Closing [c] (items.flatten ++ [.char c])
  | next {c : Char} {outer : List Char} {items : List (List Lexeme)} {lexemes : List Lexeme} :
      (∀ item ∈ items, Item item) → Closing outer lexemes →
      Closing (c :: outer) (items.flatten ++ .char c :: lexemes)

theorem Closing.item {awaited : List Char} {item lexemes : List Lexeme} (hitem : Item item)
    (h : Closing awaited lexemes) : Closing awaited (item ++ lexemes) := by
  have hcons : ∀ {items : List (List Lexeme)}, (∀ i ∈ items, Item i) → ∀ i ∈ item :: items, Item i :=
    fun hitems => List.forall_mem_cons.mpr ⟨hitem, hitems⟩
  cases h with
  | last hitems =>
    rw [← List.append_assoc, ← List.flatten_cons]
    exact .last (hcons hitems)
  | next hitems h =>
    rw [← List.append_assoc, ← List.flatten_cons]
    exact .next (hcons hitems) h

/-- What closes an inner block first goes on with the outer ones. -/
theorem Closing.opening {o c : Char} {awaited : List Char} {lexemes : List Lexeme}
    (hbracket : closer? o = some c) (hne : awaited ≠ []) (h : Closing (c :: awaited) lexemes) :
    Closing awaited (.char o :: lexemes) := by
  cases h with
  | last => exact absurd rfl hne
  | next hitems h =>
    have hblock := Closing.item (.block hbracket hitems) h
    simpa using hblock

theorem plain_of_bracket {c : Char} (h : (closer? c).isSome = true ∨ isCloser c = true) :
    isQuote c = false ∧ c ≠ '/' := by
  have hall : ∀ c ∈ ['(', '[', '\x7b', ')', ']', '\x7d'], isQuote c = false ∧ c ≠ '/' := by
    simp [isQuote]
  apply hall
  rcases h with h | h
  · unfold closer? at h
    split at h <;> simp_all
  · simp only [isCloser, Bool.or_eq_true, beq_iff_eq] at h
    rcases h with (rfl | rfl) | rfl <;> decide

/-- A bracket that closes another opens none. -/
theorem isCloser_of_closer? {o c : Char} (h : closer? o = some c) :
    isCloser c = true ∧ closer? c = none := by
  unfold closer? at h
  split at h <;> cases h <;> decide

theorem closeBlock_lineComment (awaited cs : List Char) :
    closeBlock awaited ('/' :: '/' :: cs) = closeBlock awaited (cs.dropWhile (· != '\n')) := by
  rw [closeBlock.eq_def]
  simp [isQuote]

theorem closeBlock_blockComment (awaited : List Char) {cs rest : List Char}
    (h : skipComment? cs = some rest) :
    closeBlock awaited ('/' :: '*' :: cs) = closeBlock awaited rest := by
  rw [closeBlock.eq_def]
  simp only [show isQuote '/' = false from rfl, Bool.false_eq_true, if_false, beq_self_eq_true,
    Bool.true_and, List.head?_cons, show (some '*' == some '/') = false from rfl, if_true,
    List.tail_cons]
  split <;> simp_all

theorem closeBlock_slash (awaited : List Char) {cs : List Char}
    (h : ∀ d ∈ cs.head?, d ≠ '/' ∧ d ≠ '*') :
    closeBlock awaited ('/' :: cs) = closeBlock awaited cs := by
  have hline : (cs.head? == some '/') = false := by
    rw [beq_eq_false_iff_ne]
    exact fun he => (h '/' he).1 rfl
  have hblock : (cs.head? == some '*') = false := by
    rw [beq_eq_false_iff_ne]
    exact fun he => (h '*' he).2 rfl
  rw [closeBlock.eq_def]
  simp only [show isQuote '/' = false from rfl, hline, hblock, Bool.and_false]
  rfl

/-- Literals and comments are skipped. -/
theorem Stands.closeBlock {l : Lexeme} {rest : List Char} (h : Stands l rest)
    (hl : ∀ c, l ≠ .char c) (awaited : List Char) :
    Source.closeBlock awaited (l.text ++ rest) = Source.closeBlock awaited rest := by
  cases h with
  | literal hquote hbody => exact closeBlock_quote awaited hquote (hbody.skips hquote rest)
  | @lineComment body _ hline hend =>
    have hbody : ∀ c ∈ body, (c != '\n') = true := by
      rintro c hc
      simpa using fun he : c = '\n' => hline (he ▸ hc)
    have hrest : rest.dropWhile (· != '\n') = rest := by
      cases rest with
      | nil => rfl
      | cons c rest => simp [hend c rfl]
    have hdrop : (body ++ rest).dropWhile (· != '\n') = rest := by
      rw [List.dropWhile_append_of_pos hbody, hrest]
    have hskip := closeBlock_lineComment awaited (body ++ rest)
    rw [hdrop] at hskip
    exact hskip
  | blockComment hbody => exact closeBlock_blockComment awaited (hbody.skips rest)
  | char => exact absurd rfl (hl _)

theorem closeBlock_opening {o c : Char} (h : closer? o = some c) (awaited cs : List Char) :
    closeBlock awaited (o :: cs) = closeBlock (c :: awaited) cs := by
  obtain ⟨hquote, hslash⟩ := plain_of_bracket (.inl (by rw [h]; rfl))
  rw [closeBlock_code _ _ hquote hslash, h]

theorem closeBlock_closing {o c : Char} (h : closer? o = some c) (outer cs : List Char) :
    closeBlock (c :: outer) (c :: cs) = if outer.isEmpty then .ok cs else closeBlock outer cs := by
  obtain ⟨hcloser, hopens⟩ := isCloser_of_closer? h
  obtain ⟨hquote, hslash⟩ := plain_of_bracket (.inr hcloser)
  rw [closeBlock_code _ _ hquote hslash, hopens]
  simp [hcloser]

/-- Bracket matching passes over a row of lexemes, whatever is awaited around it. -/
def Passed (lexemes : List Lexeme) : Prop := ∀ {awaited rest : List Char}, awaited ≠ [] →
  ReadAs lexemes rest → closeBlock awaited (textOf lexemes ++ rest) = closeBlock awaited rest

theorem passed_flatten {items : List (List Lexeme)} (h : ∀ item ∈ items, Passed item) :
    Passed items.flatten := by
  induction items with
  | nil => exact fun _ _ => rfl
  | cons item items ih =>
    intro awaited rest hne hreading
    rw [List.flatten_cons] at hreading ⊢
    obtain ⟨hfirst, hothers⟩ := ReadAs.append.mp hreading
    rw [textOf_append, List.append_assoc, h item (by simp) hne hfirst]
    exact ih (fun other hother => h other (by simp [hother])) hne hothers

/-- What a block between its brackets comes to. -/
theorem closeBlock_bracketed {o c : Char} (hbracket : closer? o = some c)
    {items : List (List Lexeme)} (hitems : ∀ item ∈ items, Passed item) (awaited : List Char)
    {rest : List Char} (hreading : ReadAs (.char o :: (items.flatten ++ [.char c])) rest) :
    closeBlock awaited (textOf (.char o :: (items.flatten ++ [.char c])) ++ rest) =
      if awaited.isEmpty then .ok rest else closeBlock awaited rest := by
  have hreading : ReadAs items.flatten (c :: rest) := (ReadAs.append.mp hreading.2).1
  have htext : textOf (.char o :: (items.flatten ++ [.char c])) ++ rest =
      o :: (textOf items.flatten ++ c :: rest) := by
    simp [textOf, Lexeme.text]
  rw [htext, closeBlock_opening hbracket, passed_flatten hitems (List.cons_ne_nil _ _) hreading,
    closeBlock_closing hbracket]

theorem Item.passed {item : List Lexeme} (h : Item item) : Passed item := by
  induction h with
  | literal text =>
    intro awaited rest _ hreading
    simpa [textOf] using hreading.1.closeBlock (by simp) awaited
  | comment text =>
    intro awaited rest _ hreading
    simpa [textOf] using hreading.1.closeBlock (by simp) awaited
  | @other c hopens hcloses =>
    intro awaited rest _ hreading
    show closeBlock awaited (c :: rest) = closeBlock awaited rest
    obtain ⟨hstands, -⟩ := hreading
    cases hstands with
    | char hquote hnext =>
      by_cases hslash : c = '/'
      · subst hslash
        exact closeBlock_slash awaited (by simpa [textOf] using hnext rfl)
      · rw [closeBlock_code _ _ hquote hslash, hopens]
        simp [hcloses]
  | block hbracket _ ih =>
    intro awaited rest hne hreading
    rw [closeBlock_bracketed hbracket ih awaited hreading, if_neg (by simpa using hne)]

/-- A block is matched to its end. -/
theorem IsBlock.closeBlock {lexemes : List Lexeme} (h : IsBlock lexemes) {rest : List Char}
    (hreading : ReadAs lexemes rest) :
    Source.closeBlock [] (textOf lexemes ++ rest) = .ok rest := by
  obtain ⟨o, c, items, hbracket, hitems, rfl⟩ := h
  exact closeBlock_bracketed hbracket (fun item hitem => (hitems item hitem).passed) [] hreading

/-- A text is read as rows of items, ended by the awaited closers, up to what follows them. -/
def Closes (awaited cs rest : List Char) : Prop :=
  ∃ lexemes, cs = textOf lexemes ++ rest ∧ ReadAs lexemes rest ∧ Closing awaited lexemes

theorem Closes.item {l : Lexeme} (hitem : Item [l]) {awaited cs rest : List Char}
    (hstands : Stands l cs) (h : Closes awaited cs rest) : Closes awaited (l.text ++ cs) rest := by
  obtain ⟨lexemes, rfl, hreading, hclosing⟩ := h
  exact ⟨l :: lexemes, by simp, ⟨hstands, hreading⟩, hclosing.item hitem⟩

theorem stands_bracket {c : Char} (h : (closer? c).isSome = true ∨ isCloser c = true)
    (rest : List Char) : Stands (.char c) rest :=
  .char (plain_of_bracket h).1 fun hslash => absurd hslash (plain_of_bracket h).2

/-- Where no comment starts, a character stands for itself. -/
theorem stands_char {c : Char} {cs : List Char} (hquote : ¬ isQuote c = true)
    (hline : ¬ (c == '/' && cs.head? == some '/') = true)
    (hblock : ¬ (c == '/' && cs.head? == some '*') = true) : Stands (.char c) cs := by
  refine .char (by simpa using hquote) fun hslash d hd => ?_
  rw [hslash, Option.mem_def.mp hd] at hline hblock
  exact ⟨by simpa using hline, by simpa using hblock⟩

/-- A line comment goes on to the end of its line. -/
theorem Closes.lineComment {awaited cs rest : List Char}
    (h : Closes awaited (cs.dropWhile (· != '\n')) rest) :
    Closes awaited ('/' :: '/' :: cs) rest := by
  have hline : '\n' ∉ cs.takeWhile (· != '\n') := fun hmem => by
    simpa using List.all_eq_true.mp (List.all_takeWhile (p := (· != '\n')) (l := cs)) _ hmem
  have hend : ∀ c ∈ (cs.dropWhile (· != '\n')).head?, c = '\n' := fun c hc => by
    have hstop := List.head?_dropWhile_not (· != '\n') cs
    rw [Option.mem_def.mp hc] at hstop
    simpa using hstop
  have hread := Closes.item (.comment _) (.lineComment hline hend) h
  simpa [Lexeme.text, List.takeWhile_append_dropWhile] using hread

/-- What bracket matching accepts closes the blocks that are open. -/
theorem closes_of_closeBlock {awaited cs rest : List Char} (hne : awaited ≠ [])
    (h : closeBlock awaited cs = .ok rest) : Closes awaited cs rest := by
  fun_induction closeBlock awaited cs with
  | case1 => cases h
  | case2 => cases h
  | case3 awaited c cs hquote rest' hskip _ ih =>
    obtain ⟨body, rfl, hbody⟩ := literalEnd_of_skip hskip
    exact Closes.item (.literal _) (.literal hquote hbody) (ih hne h)
  | case4 awaited c cs _ hmark _ ih =>
    obtain ⟨rfl, hhead⟩ : c = '/' ∧ cs.head? = some '/' := by simpa using hmark
    obtain ⟨cs, rfl⟩ := List.head?_eq_some_iff.mp hhead
    have hdrop : ('/' :: cs).dropWhile (· != '\n') = cs.dropWhile (· != '\n') := by simp
    exact Closes.lineComment (hdrop ▸ ih hne h)
  | case5 => cases h
  | case6 awaited c cs _ _ hmark rest' hskip _ ih =>
    obtain ⟨rfl, hhead⟩ : c = '/' ∧ cs.head? = some '*' := by simpa using hmark
    obtain ⟨cs, rfl⟩ := List.head?_eq_some_iff.mp hhead
    obtain ⟨body, hbody, hcomment⟩ := commentEnd_of_skip hskip
    rw [List.tail_cons] at hbody
    rw [hbody]
    exact Closes.item (.comment _) (.blockComment hcomment) (ih hne h)
  | case7 awaited c cs _ _ _ close hopens ih =>
    obtain ⟨lexemes, rfl, hreading, hclosing⟩ := ih (List.cons_ne_nil _ _) h
    exact ⟨.char c :: lexemes, by simp [Lexeme.text],
      ⟨stands_bracket (.inl (by rw [hopens]; rfl)) _, hreading⟩, hclosing.opening hopens hne⟩
  | case8 => cases h
  | case9 => cases h
  | case10 c cs _ _ _ _ hcloser expected outer hsame houter =>
    cases h
    obtain rfl : expected = c := by simpa using hsame
    obtain rfl : outer = [] := by simpa using houter
    have hlast : Closing [expected] [.char expected] := .last fun _ hitem => absurd hitem List.not_mem_nil
    exact ⟨[.char expected], by simp [textOf, Lexeme.text],
      ⟨stands_bracket (.inr hcloser) _, trivial⟩, hlast⟩
  | case11 c cs _ _ _ _ hcloser expected outer hsame houter ih =>
    obtain rfl : expected = c := by simpa using hsame
    obtain ⟨lexemes, rfl, hreading, hclosing⟩ := ih (by simpa using houter) h
    have hnext : Closing (expected :: outer) (.char expected :: lexemes) :=
      .next (fun _ hitem => absurd hitem List.not_mem_nil) hclosing
    exact ⟨.char expected :: lexemes, by simp [Lexeme.text],
      ⟨stands_bracket (.inr hcloser) _, hreading⟩, hnext⟩
  | case12 awaited c cs hquote hline hblock hopens hcloser ih =>
    exact Closes.item (.other hopens (by simpa using hcloser)) (stands_char hquote hline hblock)
      (ih hne h)

/-- Bracket matching from an opening bracket accepts exactly the blocks. -/
theorem closeBlock_iff {o : Char} (hopens : (closer? o).isSome = true) {cs rest : List Char} :
    closeBlock [] (o :: cs) = .ok rest ↔
      ∃ lexemes, IsBlock lexemes ∧ ReadAs lexemes rest ∧ o :: cs = textOf lexemes ++ rest := by
  constructor
  · intro h
    obtain ⟨c, hc⟩ := Option.isSome_iff_exists.mp hopens
    rw [closeBlock_opening hc] at h
    obtain ⟨lexemes, rfl, hreading, hclosing⟩ := closes_of_closeBlock (List.cons_ne_nil _ _) h
    cases hclosing with
    | last hitems =>
      exact ⟨_, ⟨o, c, _, hc, hitems, rfl⟩, ⟨stands_bracket (.inl hopens) _, hreading⟩,
        by simp [Lexeme.text]⟩
    | next _ houter => cases houter
  · rintro ⟨lexemes, hblock, hreading, htext⟩
    rw [htext]
    exact hblock.closeBlock hreading

/-! ## What a block takes along -/

theorem skipInlineBlanks_append {blanks : List Char} (h : ∀ c ∈ blanks, isInlineBlank c = true)
    (rest : List Char) : skipInlineBlanks (blanks ++ rest) = skipInlineBlanks rest :=
  List.dropWhile_append_of_pos h

theorem skipChar_suffix (c : Char) (cs : List Char) : skipChar c cs <:+ cs := by
  cases cs with
  | nil => exact List.suffix_refl _
  | cons d cs =>
    rw [skipChar]
    split
    · exact List.suffix_cons d cs
    · exact List.suffix_refl _

theorem skipInlineBlanks_suffix (cs : List Char) : skipInlineBlanks cs <:+ cs :=
  List.dropWhile_suffix _

/-- A terminator that ends its line is skipped, and nothing after it. -/
theorem skipTerminator_line {before semicolon after : List Char}
    (hbefore : ∀ c ∈ before, isInlineBlank c = true) (hsemicolon : semicolon = [] ∨ semicolon = [';'])
    (hafter : ∀ c ∈ after, isInlineBlank c = true) (rest : List Char) :
    skipTerminator (before ++ semicolon ++ after ++ '\n' :: rest) = rest := by
  have hbreak : skipInlineBlanks ('\n' :: rest) = '\n' :: rest := rfl
  have hmark : skipInlineBlanks (';' :: (after ++ '\n' :: rest)) = ';' :: (after ++ '\n' :: rest) := rfl
  have hstop : skipChar ';' ('\n' :: rest) = '\n' :: rest := rfl
  have hskip : skipChar '\n' ('\n' :: rest) = rest := by simp [skipChar]
  unfold skipTerminator
  rw [List.append_assoc, List.append_assoc, skipInlineBlanks_append hbefore]
  rcases hsemicolon with rfl | rfl
  · rw [List.nil_append, skipInlineBlanks_append hafter, hbreak, hstop, hbreak, hskip]
  · rw [List.singleton_append, hmark, skipChar, if_pos (by simp), skipInlineBlanks_append hafter,
      hbreak, hskip]

/-- Whatever terminator a text starts with is skipped. -/
theorem skipTerminator_suffix {terminator : List Char} (h : IsTerminator terminator)
    (rest : List Char) : skipTerminator (terminator ++ rest) <:+ rest := by
  obtain ⟨before, semicolon, after, lineBreak, rfl, hbefore, hsemicolon, hafter, hbreak⟩ := h
  rcases hbreak with rfl | rfl
  · have hmark : skipInlineBlanks (';' :: (after ++ rest)) = ';' :: (after ++ rest) := rfl
    have hlast := fun cs : List Char => (skipChar_suffix '\n' (skipInlineBlanks cs)).trans
      (skipInlineBlanks_suffix cs)
    unfold skipTerminator
    rw [List.append_nil, List.append_assoc, List.append_assoc, skipInlineBlanks_append hbefore]
    rcases hsemicolon with rfl | rfl
    · rw [List.nil_append, skipInlineBlanks_append hafter]
      exact (hlast _).trans ((skipChar_suffix ';' _).trans (skipInlineBlanks_suffix rest))
    · rw [List.singleton_append, hmark, skipChar, if_pos (by simp), skipInlineBlanks_append hafter]
      exact hlast rest
  · rw [List.append_assoc, List.singleton_append]
    exact ⟨[], skipTerminator_line hbefore hsemicolon hafter rest⟩

/-- What is skipped is a terminator. -/
theorem exists_terminator (cs : List Char) :
    ∃ terminator, IsTerminator terminator ∧ cs = terminator ++ skipTerminator cs := by
  have hblanks : ∀ cs : List Char, ∃ blanks, (∀ c ∈ blanks, isInlineBlank c = true) ∧
      cs = blanks ++ skipInlineBlanks cs := fun cs =>
    ⟨cs.takeWhile isInlineBlank, List.all_eq_true.mp List.all_takeWhile,
      List.takeWhile_append_dropWhile.symm⟩
  have hchar : ∀ (c : Char) (cs : List Char), ∃ mark, (mark = [] ∨ mark = [c]) ∧
      cs = mark ++ skipChar c cs := by
    intro c cs
    cases cs with
    | nil => exact ⟨[], .inl rfl, rfl⟩
    | cons d cs =>
      rw [skipChar]
      split
      · rename_i hd
        exact ⟨[c], .inr rfl, by rw [beq_iff_eq.mp hd]; rfl⟩
      · exact ⟨[], .inl rfl, rfl⟩
  obtain ⟨before, hbefore, h1⟩ := hblanks cs
  obtain ⟨semicolon, hsemicolon, h2⟩ := hchar ';' (skipInlineBlanks cs)
  obtain ⟨after, hafter, h3⟩ := hblanks (skipChar ';' (skipInlineBlanks cs))
  obtain ⟨lineBreak, hbreak, h4⟩ := hchar '\n' (skipInlineBlanks (skipChar ';' (skipInlineBlanks cs)))
  refine ⟨before ++ semicolon ++ after ++ lineBreak,
    ⟨before, semicolon, after, lineBreak, rfl, hbefore, hsemicolon, hafter, hbreak⟩, ?_⟩
  unfold skipTerminator
  rw [List.append_assoc, ← h4, List.append_assoc, ← h3, List.append_assoc, ← h2, ← h1]

/-- Skipping takes the longest terminator. -/
theorem longestTerminator_iff {terminator cs : List Char} :
    LongestTerminator terminator cs ↔ cs = terminator ++ skipTerminator cs := by
  obtain ⟨longest, hlongest, hcs⟩ := exists_terminator cs
  have hmost : ∀ other, IsTerminator other → other <+: cs → other.length ≤ longest.length := by
    rintro other hother ⟨rest, rfl⟩
    have hsuffix := (skipTerminator_suffix hother rest).length_le
    have hlength := congrArg List.length hcs
    simp only [List.length_append] at hlength
    omega
  constructor
  · rintro ⟨⟨hterminator, hprefix⟩, hmax⟩
    have hfront : longest <+: cs := ⟨_, hcs.symm⟩
    have hlength := Nat.le_antisymm (hmost _ hterminator hprefix) (hmax _ hlongest hfront)
    rw [(List.prefix_of_prefix_length_le hprefix hfront (Nat.le_of_eq hlength)).eq_of_length hlength]
    exact hcs
  · intro h
    obtain rfl : terminator = longest := List.append_cancel_right (h.symm.trans hcs)
    exact ⟨⟨hlongest, ⟨_, hcs.symm⟩⟩, hmost⟩

/-! ## The end of a block -/

theorem IsBlock.textOf_ne_nil {lexemes : List Lexeme} (h : IsBlock lexemes) : textOf lexemes ≠ [] := by
  obtain ⟨o, c, items, -, -, rfl⟩ := h
  simp [Lexeme.text]

/-- A block ends with a bracket, so what follows does not change its reading. -/
theorem IsBlock.reading_congr {lexemes : List Lexeme} (h : IsBlock lexemes) {rest : List Char}
    (hreading : ReadAs lexemes rest) (rest' : List Char) : ReadAs lexemes rest' := by
  obtain ⟨o, c, items, hbracket, -, rfl⟩ := h
  have hslash := (plain_of_bracket (.inr (isCloser_of_closer? hbracket).1)).2
  rw [← List.cons_append] at hreading ⊢
  exact hreading.congr_bracket hslash rest'

theorem IsBlock.getLast? {lexemes : List Lexeme} (h : IsBlock lexemes) :
    ∃ c, (textOf lexemes).getLast? = some c ∧ isCloser c = true := by
  obtain ⟨o, c, items, hbracket, -, rfl⟩ := h
  refine ⟨c, ?_, (isCloser_of_closer? hbracket).1⟩
  rw [← List.cons_append, textOf_append, show textOf [.char c] = [c] from rfl]
  exact List.getLast?_concat

theorem blockEnd_eq (source : List Char) (start : Nat) : blockEnd source start =
    (closeBlock [] (source.drop start)).map fun rest =>
      source.length - (skipTerminator rest).length := by
  rw [blockEnd, afterBlock]
  cases closeBlock [] (source.drop start) <;> rfl

/-- Where a block stands in a text, with what it takes along. -/
theorem blockEnd_framed (front : List Char) {lexemes : List Lexeme} (hblock : IsBlock lexemes)
    {terminator rest : List Char} (hreading : ReadAs lexemes (terminator ++ rest))
    (hskip : skipTerminator (terminator ++ rest) = rest) :
    blockEnd (front ++ (textOf lexemes ++ (terminator ++ rest))) front.length =
      .ok (front ++ (textOf lexemes ++ terminator)).length := by
  rw [blockEnd_eq, List.drop_left, hblock.closeBlock hreading, Except.map, hskip]
  simp only [List.length_append, Except.ok.injEq]
  omega

/-- A terminator after a block that ends its line has a line break, which ends it. -/
theorem terminator_line {text terminator : List Char} {c : Char} (hlast : text.getLast? = some c)
    (hc : isCloser c = true) (h : IsTerminator terminator)
    (hbreak : (text ++ terminator).getLast? = some '\n') (rest : List Char) :
    skipTerminator (terminator ++ rest) = rest := by
  obtain ⟨before, semicolon, after, lineBreak, rfl, hbefore, hsemicolon, hafter, rfl | rfl⟩ := h
  · have hmem : '\n' ∈ [c] ++ (before ++ semicolon ++ after) := by
      refine List.mem_of_getLast? ?_
      rw [List.append_nil, List.getLast?_append, hlast] at hbreak
      rw [List.getLast?_append, List.getLast?_singleton]
      exact hbreak
    simp only [List.mem_append, List.mem_singleton] at hmem
    rcases hmem with rfl | (hmem | hmem) | hmem
    · cases hc
    · exact absurd (hbefore _ hmem) (by decide)
    · rcases hsemicolon with rfl | rfl <;> simp at hmem
    · exact absurd (hafter _ hmem) (by decide)
  · rw [List.append_assoc, List.singleton_append]
    exact skipTerminator_line hbefore hsemicolon hafter rest

theorem drop_of_open {source : List Char} {start : Nat} {o : Char} (h : source[start]? = some o) :
    ∃ cs, source.drop start = o :: cs := by
  obtain ⟨hlt, rfl⟩ := List.getElem?_eq_some_iff.mp h
  exact ⟨_, List.drop_eq_getElem_cons hlt⟩

/-- The text between two offsets, said in front of the text that follows. -/
theorem take_drop_eq_iff {source text : List Char} {start stop : Nat} (hne : text ≠ [])
    (hstop : stop ≤ source.length) : (source.take stop).drop start = text ↔
      source.drop start = text ++ source.drop stop := by
  rcases Nat.le_total start stop with hle | hle
  · have hparts : source.drop start = (source.take stop).drop start ++ source.drop stop := by
      rw [← List.drop_append_of_le_length (by simp [hle, hstop]), List.take_append_drop]
    rw [hparts, List.append_left_inj]
  · have hpos := List.length_pos_iff.mpr hne
    refine ⟨fun h => absurd (h ▸ List.drop_eq_nil_of_le (by simp; omega)) hne, fun h => ?_⟩
    have hlength := congrArg List.length h
    simp only [List.length_drop, List.length_append] at hlength
    omega

section Opened

variable {source : List Char} {start : Nat} {o : Char} (hopen : source[start]? = some o)
  (hbracket : (closer? o).isSome = true)

include hopen hbracket

/-- The block from an offset on is what bracket matching takes in there. -/
theorem blockThrough_iff {last : Nat} : BlockThrough source start last ↔
    last < source.length ∧ closeBlock [] (source.drop start) = .ok (source.drop (last + 1)) := by
  obtain ⟨cs, hcs⟩ := drop_of_open hopen
  refine and_congr_right fun hlast => ?_
  rw [hcs, closeBlock_iff hbracket, ← hcs]
  exact exists_congr fun lexemes => and_congr_right fun hblock => and_congr_right fun _ =>
    take_drop_eq_iff hblock.textOf_ne_nil hlast

theorem blockThrough_unique {last last' : Nat} (h : BlockThrough source start last)
    (h' : BlockThrough source start last') : last = last' := by
  obtain ⟨hlast, h⟩ := (blockThrough_iff hopen hbracket).mp h
  obtain ⟨hlast', h'⟩ := (blockThrough_iff hopen hbracket).mp h'
  rw [h, Except.ok.injEq] at h'
  have hlength := congrArg List.length h'
  simp only [List.length_drop] at hlength
  omega

/-- What is left behind a block starts right after its last bracket. -/
theorem exists_last {rest : List Char} (h : closeBlock [] (source.drop start) = .ok rest) :
    ∃ last, BlockThrough source start last ∧ rest = source.drop (last + 1) := by
  obtain ⟨cs, hcs⟩ := drop_of_open hopen
  obtain ⟨lexemes, hblock, -, htext⟩ := (closeBlock_iff hbracket).mp (hcs ▸ h)
  rw [← hcs] at htext
  have hpos := List.length_pos_iff.mpr hblock.textOf_ne_nil
  have hlength := congrArg List.length htext
  simp only [List.length_drop, List.length_append] at hlength
  have hrest : source.drop (start + (textOf lexemes).length) = rest := by
    rw [← List.drop_drop, htext, List.drop_left]
  have hlast : start + (textOf lexemes).length - 1 + 1 = start + (textOf lexemes).length := by omega
  refine ⟨start + (textOf lexemes).length - 1, (blockThrough_iff hopen hbracket).mpr ⟨by omega, ?_⟩, ?_⟩
  · rw [hlast, hrest, h]
  · rw [hlast, hrest]

/-- A block is found exactly where the grammar has one, and ends behind its terminator. -/
theorem blockEnd_eq_ok_iff {e : Nat} : blockEnd source start = .ok e ↔
    ∃ last terminator, BlockThrough source start last ∧
      LongestTerminator terminator (source.drop (last + 1)) ∧ e = last + 1 + terminator.length := by
  have hoffset : ∀ {last : Nat} {terminator : List Char}, last < source.length →
      source.drop (last + 1) = terminator ++ skipTerminator (source.drop (last + 1)) →
      source.length - (skipTerminator (source.drop (last + 1))).length =
        last + 1 + terminator.length := by
    intro last terminator hlast h
    have hlength := congrArg List.length h
    simp only [List.length_append, List.length_drop] at hlength
    omega
  rw [blockEnd_eq]
  constructor
  · intro h
    obtain ⟨rest, hclose, rfl⟩ := map_ok h
    obtain ⟨last, hthrough, rfl⟩ := exists_last hopen hbracket hclose
    obtain ⟨terminator, -, hterminator⟩ := exists_terminator (source.drop (last + 1))
    exact ⟨last, terminator, hthrough, longestTerminator_iff.mpr hterminator,
      hoffset hthrough.1 hterminator⟩
  · rintro ⟨last, terminator, hthrough, hterminator, rfl⟩
    obtain ⟨hlast, hclose⟩ := (blockThrough_iff hopen hbracket).mp hthrough
    rw [hclose, Except.map, hoffset hlast (longestTerminator_iff.mp hterminator)]

/-- Where the block's line ends with it, what follows does not matter. -/
theorem blockEnd_replace {e : Nat} (h : blockEnd source start = .ok e)
    (hbreak : source[e - 1]? = some '\n') (other : List Char) :
    blockEnd (source.take e ++ other) start = .ok e := by
  obtain ⟨cs, hcs⟩ := drop_of_open hopen
  rw [blockEnd_eq] at h
  obtain ⟨rest, hclose, rfl⟩ := map_ok h
  obtain ⟨lexemes, hblock, hreading, htext⟩ := (closeBlock_iff hbracket).mp (hcs ▸ hclose)
  obtain ⟨terminator, hterminator, hrest⟩ := exists_terminator rest
  generalize skipTerminator rest = left at hrest hbreak ⊢
  obtain ⟨front, rfl, hsource⟩ : ∃ front : List Char, front.length = start ∧
      source = (front ++ (textOf lexemes ++ terminator)) ++ left := by
    refine ⟨source.take start, ?_, ?_⟩
    · have := (List.getElem?_eq_some_iff.mp hopen).1
      rw [List.length_take]
      omega
    · rw [List.append_assoc, List.append_assoc, ← hrest, ← htext, ← hcs, List.take_append_drop]
  obtain ⟨c, hlast, hc⟩ := hblock.getLast?
  have hend : source.length - left.length = (front ++ (textOf lexemes ++ terminator)).length := by
    rw [hsource, List.length_append, Nat.add_sub_cancel]
  have hne : textOf lexemes ++ terminator ≠ [] := by simp [hblock.textOf_ne_nil]
  have hline : (textOf lexemes ++ terminator).getLast? = some '\n' := by
    have hpos : 0 < (front ++ (textOf lexemes ++ terminator)).length :=
      List.length_pos_iff.mpr (List.append_ne_nil_of_right_ne_nil _ hne)
    rwa [hend, hsource, List.getElem?_append_left (Nat.sub_lt hpos Nat.one_pos),
      ← List.getLast?_eq_getElem?, List.getLast?_append_of_ne_nil _ hne] at hbreak
  rw [hend, hsource, List.take_left, List.append_assoc, List.append_assoc]
  exact blockEnd_framed front hblock (hblock.reading_congr hreading _)
    (terminator_line hlast hc hterminator hline other)

end Opened

/-- Bracket matching from an opening bracket finds exactly the blocks of the grammar: it returns the
end of the block that starts there, with the longest terminator after it, and fails where there is no
block. Once it took in the rest of a line, what follows that line does not matter. -/
theorem blockEnd_grammar {source : List Char} {start : Nat} {o : Char}
    (hopen : source[start]? = some o) (hbracket : (closer? o).isSome = true) :
    (∀ e, blockEnd source start = .ok e ↔
      ∃ last terminator, BlockThrough source start last ∧
        (∀ other, BlockThrough source start other → other = last) ∧
        LongestTerminator terminator (source.drop (last + 1)) ∧ e = last + 1 + terminator.length) ∧
    ((¬ ∃ last, BlockThrough source start last) → ∃ error, blockEnd source start = .error error) ∧
    ∀ e, blockEnd source start = .ok e → source[e - 1]? = some '\n' → ∀ other : List Char,
      blockEnd (source.take e ++ other) start = .ok e := by
  refine ⟨fun e => ?_, fun hnone => ?_, fun e h hbreak other =>
    blockEnd_replace hopen hbracket h hbreak other⟩
  · rw [blockEnd_eq_ok_iff hopen hbracket]
    refine exists_congr fun last => exists_congr fun terminator => and_congr_right fun hthrough => ?_
    exact (and_iff_right fun other hother => blockThrough_unique hopen hbracket hother hthrough).symm
  · cases h : blockEnd source start with
    | error error => exact ⟨error, rfl⟩
    | ok e =>
      obtain ⟨last, -, hthrough, -⟩ := (blockEnd_eq_ok_iff hopen hbracket).mp h
      exact absurd ⟨last, hthrough⟩ hnone

/-- The block of a call goes over a bracket in a literal and one in a comment, and takes its line
along. -/
theorem blockEnd_grammar_call :
    let source := "call(\x7b a: \")\", /* \x7d */ \x7d);\nrest".toList
    source[4]? = some '(' ∧ (closer? '(').isSome = true ∧ blockEnd source 4 = .ok 27 ∧
      (∃ last terminator, BlockThrough source 4 last ∧
        (∀ other, BlockThrough source 4 other → other = last) ∧
        LongestTerminator terminator (source.drop (last + 1)) ∧ 27 = last + 1 + terminator.length) ∧
      ∀ other : List Char, blockEnd (source.take 27 ++ other) 4 = .ok 27 := by
  intro source
  have hopen : source[4]? = some '(' := by decide
  have hbracket : (closer? '(').isSome = true := by decide
  have hend : blockEnd source 4 = .ok 27 := by decide +kernel
  obtain ⟨hblock, -, hreplace⟩ := blockEnd_grammar hopen hbracket
  exact ⟨hopen, hbracket, hend, (hblock 27).mp hend, hreplace 27 hend (by decide)⟩

end SchemaScaffold.Source
