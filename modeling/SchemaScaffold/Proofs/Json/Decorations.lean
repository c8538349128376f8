import SchemaScaffold.Proofs.Json.Lexemes
import SchemaScaffold.Proofs.Source.Comments

/-!
Relaxed JSON is JSON with decorations: blanks and comments between its lexemes, and a comma before a
closing bracket. The two passes that make it strict take the decorations off and leave every lexeme as
it is written, so the tokens of a decorated document are those of the plain one. A document without
any decoration is a decorated one too.
-/

namespace SchemaScaffold.Json

open Text Source

/-- What may stand between two lexemes of relaxed JSON: white space, comments to the end of the line,
and block comments. -/
inductive Gap (white : Char → Bool) : List Char → Prop
  | done : Gap white []
  | blank {c : Char} {cs : List Char} (isWhite : white c = true) (rest : Gap white cs) :
    Gap white (c :: cs)
  | line {body cs : List Char} (inLine : '\n' ∉ body) (rest : Gap white cs) :
    Gap white ('/' :: '/' :: (body ++ '\n' :: cs))
  | block {body cs : List Char} (isOpen : ¬ ['*', '/'] <:+: body) (rest : Gap white cs) :
    Gap white ('/' :: '*' :: (body ++ '*' :: '/' :: cs))

/-- A text with these tokens that has gaps around its lexemes, and at most one more comma before a
closing bracket. -/
inductive Decorated (gap : List Char → Prop) : List Token → List Char → Prop
  | done {g : List Char} (isGap : gap g) : Decorated gap [] g
  | lexeme {g w cs : List Char} {t : Token} {ts : List Token} (isGap : gap g) (writes : t.Writes w)
    (rest : Decorated gap ts cs) : Decorated gap (t :: ts) (g ++ (w ++ cs))
  | comma {g g' cs : List Char} {c : Char} {ts : List Token} (isGap : gap g) (isGap' : gap g')
    (closes : isClosingBracket c = true) (rest : Decorated gap ts cs) :
    Decorated gap (.mark c :: ts) (g ++ ',' :: (g' ++ c :: cs))

/-- Blanks of JSON and nothing else. -/
def Blanks (cs : List Char) : Prop := ∀ c ∈ cs, isJsonBlank c = true

/-- What can be said of every blank of JSON, can be checked for four. -/
theorem jsonBlank_forall {p : Char → Bool} (hp : " \t\n\r".toList.all p = true) {c : Char}
    (h : isJsonBlank c = true) : p c = true := by
  have hmem : c ∈ " \t\n\r".toList := by
    simpa [isJsonBlank, or_assoc] using h
  exact List.all_eq_true.mp hp c hmem

theorem closingBracket_forall {p : Char → Bool} (hp : p '}' = true) (hp' : p ']' = true) {c : Char}
    (h : isClosingBracket c = true) : p c = true := by
  rcases Bool.or_eq_true_iff.mp h with h | h <;> rwa [beq_iff_eq.mp h]

/-- Both passes take a text of the document for a literal. -/
theorem stringLiteral?_text {body : List Char} (h : closeLiteral? '"' false body = some (body, []))
    (r : List Char) : stringLiteral? (body ++ r) = some (body, r) := by
  rw [stringLiteral?, closeLiteral?_append_some (closeLiteral?_self (by simp) h)]
  rfl

/-! ## Comments -/

theorem dropComments_cons {c : Char} (hquote : c ≠ '"') (hslash : c ≠ '/') (cs : List Char) :
    dropComments (c :: cs) = c :: dropComments cs := by
  rw [dropComments]
  simp [hquote, hslash]

theorem dropComments_literal {cs body rest : List Char}
    (h : stringLiteral? cs = some (body, rest)) :
    dropComments ('"' :: cs) = '"' :: body ++ dropComments rest := by
  rw [dropComments, if_pos (by decide)]
  split
  · rename_i body' rest' h'
    rw [h] at h'
    cases h'
    rfl
  · rename_i h'
    rw [h] at h'
    cases h'

theorem dropComments_comment {cs rest : List Char} (h : afterComment? cs = some rest) :
    dropComments ('/' :: cs) = dropComments rest := by
  rw [dropComments, if_neg (by decide), if_pos (by decide)]
  split
  · rename_i rest' h'
    rw [h] at h'
    cases h'
    rfl
  · rename_i h'
    rw [h] at h'
    cases h'

theorem dropComments_inert {w : List Char} (h : ∀ c ∈ w, isInert c = true) (r : List Char) :
    dropComments (w ++ r) = w ++ dropComments r := by
  induction w with
  | nil => rfl
  | cons c w ih =>
    obtain ⟨hc, hw⟩ := List.forall_mem_cons.mp h
    simp only [isInert, Bool.not_eq_true', Bool.or_eq_false_iff, beq_eq_false_iff_ne] at hc
    rw [List.cons_append, dropComments_cons hc.1.1.1.1.1.1 hc.1.1.1.1.1.2, ih hw, List.cons_append]

/-- A lexeme has no comment in it. -/
theorem dropComments_lexeme {t : Token} {w : List Char} (h : t.Writes w) (r : List Char) :
    dropComments (w ++ r) = w ++ dropComments r := by
  cases t with
  | mark c =>
    obtain ⟨hc, rfl⟩ := h
    have hall : "[]{},:".toList.all (fun c => c != '"' && c != '/') = true := by decide
    have hne := List.all_eq_true.mp hall c (by simpa [isMark] using hc)
    rw [Bool.and_eq_true, bne_iff_ne, bne_iff_ne] at hne
    exact dropComments_cons hne.1 hne.2 r
  | string body =>
    obtain ⟨hbody, rfl⟩ := h
    rw [List.cons_append, dropComments_literal (stringLiteral?_text hbody r)]
  | number n => exact dropComments_inert (h.inert (.inl ⟨n, rfl⟩)).2 r
  | name s => exact dropComments_inert (h.inert (.inr ⟨s, rfl⟩)).2 r
  | bad => exact h.elim

theorem afterComment?_line {body : List Char} (h : '\n' ∉ body) (r : List Char) :
    afterComment? ('/' :: (body ++ '\n' :: r)) = some ('\n' :: r) := by
  have hbody : ∀ c ∈ body, (c != '\n') = true := by
    intro c hc
    rw [bne_iff_ne]
    rintro rfl
    exact h hc
  rw [afterComment?, List.dropWhile_append_of_pos hbody, List.dropWhile_cons_of_neg (by decide)]

/-- Of a gap the blanks remain, and the line break of every comment to the end of the line. -/
theorem dropComments_gap {g : List Char} (h : Gap isJsonBlank g) :
    ∃ b, Blanks b ∧ ∀ r, dropComments (g ++ r) = b ++ dropComments r := by
  induction h with
  | done => exact ⟨[], by simp [Blanks], fun r => rfl⟩
  | @blank c cs hwhite _ ih =>
    obtain ⟨b, hb, hdrop⟩ := ih
    have hne : (c != '"' && c != '/') = true :=
      jsonBlank_forall (p := fun c => c != '"' && c != '/') (by decide) hwhite
    rw [Bool.and_eq_true, bne_iff_ne, bne_iff_ne] at hne
    refine ⟨c :: b, List.forall_mem_cons.mpr ⟨hwhite, hb⟩, fun r => ?_⟩
    rw [List.cons_append, dropComments_cons hne.1 hne.2, hdrop, List.cons_append]
  | @line body cs hline _ ih =>
    obtain ⟨b, hb, hdrop⟩ := ih
    refine ⟨'\n' :: b, List.forall_mem_cons.mpr ⟨by decide, hb⟩, fun r => ?_⟩
    have hafter := afterComment?_line hline (cs ++ r)
    rw [List.cons_append, List.cons_append, List.append_assoc, List.cons_append,
      dropComments_comment hafter, dropComments_cons (by decide) (by decide), hdrop, List.cons_append]
  | @block body cs hopen _ ih =>
    obtain ⟨b, hb, hdrop⟩ := ih
    refine ⟨b, hb, fun r => ?_⟩
    have hafter : afterComment? ('*' :: (body ++ '*' :: '/' :: (cs ++ r))) = some (cs ++ r) := by
      rw [afterComment?, closeComment?_marked hopen]
      rfl
    rw [List.cons_append, List.cons_append, List.append_assoc, List.cons_append, List.cons_append,
      dropComments_comment hafter, hdrop]

/-- Without its comments, a decorated text has blanks for gaps. -/
theorem Decorated.dropComments {ts : List Token} {cs : List Char}
    (h : Decorated (Gap isJsonBlank) ts cs) : Decorated Blanks ts (dropComments cs) := by
  induction h with
  | @done g hgap =>
    obtain ⟨b, hb, hdrop⟩ := dropComments_gap hgap
    have hnil : Json.dropComments g = b := by
      have := hdrop []
      rwa [List.append_nil, show Json.dropComments [] = [] by rw [Json.dropComments],
        List.append_nil] at this
    rw [hnil]
    exact .done hb
  | @lexeme g w cs t ts hgap hwrites _ ih =>
    obtain ⟨b, hb, hdrop⟩ := dropComments_gap hgap
    rw [hdrop, dropComments_lexeme hwrites]
    exact .lexeme hb hwrites ih
  | @comma g g' cs c ts hgap hgap' hcloses _ ih =>
    obtain ⟨b, hb, hdrop⟩ := dropComments_gap hgap
    obtain ⟨b', hb', hdrop'⟩ := dropComments_gap hgap'
    have hne : (c != '"' && c != '/') = true :=
      closingBracket_forall (p := fun c => c != '"' && c != '/') (by decide) (by decide) hcloses
    rw [Bool.and_eq_true, bne_iff_ne, bne_iff_ne] at hne
    rw [hdrop, dropComments_cons (by decide) (by decide), hdrop', dropComments_cons hne.1 hne.2]
    exact .comma hb hb' hcloses ih

/-! ## Commas -/

theorem dropTrailingCommas_cons {c : Char} (hquote : c ≠ '"') {cs : List Char}
    (hcomma : c = ',' → (trimStart cs).head?.any isClosingBracket = false) :
    dropTrailingCommas (c :: cs) = c :: dropTrailingCommas cs := by
  rw [dropTrailingCommas, if_neg (by simpa using hquote), if_neg]
  rw [Bool.and_eq_true, beq_iff_eq]
  rintro ⟨hc, hany⟩
  rw [hcomma hc] at hany
  cases hany

theorem dropTrailingCommas_literal {cs body rest : List Char}
    (h : stringLiteral? cs = some (body, rest)) :
    dropTrailingCommas ('"' :: cs) = '"' :: body ++ dropTrailingCommas rest := by
  rw [dropTrailingCommas, if_pos (by decide)]
  split
  · rename_i body' rest' h'
    rw [h] at h'
    cases h'
    rfl
  · rename_i h'
    rw [h] at h'
    cases h'

theorem dropTrailingCommas_comma {cs : List Char}
    (h : (trimStart cs).head?.any isClosingBracket = true) :
    dropTrailingCommas (',' :: cs) = dropTrailingCommas cs := by
  rw [dropTrailingCommas, if_neg (by decide), if_pos]
  rw [h]
  rfl

theorem dropTrailingCommas_plain {w : List Char} (h : ∀ c ∈ w, c ≠ '"' ∧ c ≠ ',') (r : List Char) :
    dropTrailingCommas (w ++ r) = w ++ dropTrailingCommas r := by
  induction w with
  | nil => rfl
  | cons c w ih =>
    obtain ⟨hc, hw⟩ := List.forall_mem_cons.mp h
    rw [List.cons_append, dropTrailingCommas_cons hc.1 (fun he => absurd he hc.2), ih hw,
      List.cons_append]

theorem Blanks.plain {b : List Char} (h : Blanks b) : ∀ c ∈ b, c ≠ '"' ∧ c ≠ ',' := by
  intro c hc
  have hne := jsonBlank_forall (p := fun c => c != '"' && c != ',') (by decide) (h c hc)
  rwa [Bool.and_eq_true, bne_iff_ne, bne_iff_ne] at hne

theorem Blanks.trimStart {b : List Char} (h : Blanks b) (r : List Char) :
    trimStart (b ++ r) = trimStart r :=
  List.dropWhile_append_of_pos fun c hc => jsonBlank_forall (by decide) (h c hc)

/-- A lexeme is left as it is, unless it is a comma that stands before a closing bracket. -/
theorem dropTrailingCommas_lexeme {t : Token} {w r : List Char} (h : t.Writes w)
    (hcomma : t = .mark ',' → (trimStart r).head?.any isClosingBracket = false) :
    dropTrailingCommas (w ++ r) = w ++ dropTrailingCommas r := by
  have hinert (h : ∀ c ∈ w, isInert c = true) : ∀ c ∈ w, c ≠ '"' ∧ c ≠ ',' := by
    intro c hc
    have := h c hc
    simp only [isInert, Bool.not_eq_true', Bool.or_eq_false_iff, beq_eq_false_iff_ne] at this
    exact ⟨this.1.1.1.1.1.1, this.1.1.1.1.2⟩
  cases t with
  | mark c =>
    obtain ⟨hc, rfl⟩ := h
    have hall : "[]{},:".toList.all (· != '"') = true := by decide
    have hne := List.all_eq_true.mp hall c (by simpa [isMark] using hc)
    refine dropTrailingCommas_cons (bne_iff_ne.mp hne) fun he => hcomma ?_
    rw [he]
  | string body =>
    obtain ⟨hbody, rfl⟩ := h
    rw [List.cons_append, dropTrailingCommas_literal (stringLiteral?_text hbody r)]
  | number n => exact dropTrailingCommas_plain (hinert (h.inert (.inl ⟨n, rfl⟩)).2) r
  | name s => exact dropTrailingCommas_plain (hinert (h.inert (.inr ⟨s, rfl⟩)).2) r
  | bad => exact h.elim

/-- A comma that belongs to the document stands before no closing bracket. -/
theorem Decorated.head_open {ts : List Token} {cs : List Char} (h : Decorated Blanks ts cs)
    (hopen : ∀ t ∈ ts.head?, ¬ t.closes) : (trimStart cs).head?.any isClosingBracket = false := by
  cases h with
  | done hblanks =>
    have hnil := hblanks.trimStart []
    rw [List.append_nil] at hnil
    rw [hnil]
    rfl
  | lexeme hblanks hwrites _ =>
    obtain ⟨c, v, rfl, hblank, -, hcloses⟩ := hwrites.head
    rw [hblanks.trimStart, Text.trimStart, List.cons_append,
      List.dropWhile_cons_of_neg (by simp [hblank])]
    simpa [hcloses] using hopen _ rfl
  | comma _ _ hcloses _ => exact absurd hcloses (hopen _ rfl)

/-! ## Tokens -/

theorem tokens_blanks {b : List Char} (h : Blanks b) (r : List Char) :
    tokens (b ++ r) = tokens r := by
  induction b with
  | nil => rfl
  | cons c b ih =>
    obtain ⟨hc, hb⟩ := List.forall_mem_cons.mp h
    rw [List.cons_append, tokens_blank hc, ih hb]

theorem tokens_bad {c : Char} {cs : List Char} (hblank : isJsonBlank c = false)
    (h : token? c cs = none) : tokens (c :: cs) = [.bad] := by
  rw [tokens, List.length_cons, tokensUpTo, List.dropWhile_cons_of_neg (by simp [hblank])]
  simp only [h]

/-- A text whose first token is a mark, if it has one, stops what stands before it. -/
theorem stops_of_tokens {cs : List Char} (h : ∀ t ∈ (tokens cs).head?, t.marks = true) :
    Stops cs := by
  rintro c hc
  obtain ⟨cs, rfl⟩ := List.head?_eq_some_iff.mp hc
  rw [isStop, Bool.or_eq_true]
  by_cases hblank : isJsonBlank c = true
  · exact .inl hblank
  · cases htoken : token? c cs with
    | none =>
      rw [tokens_bad (by simpa using hblank) htoken] at h
      cases h _ rfl
    | some read =>
      obtain ⟨t, rest⟩ := read
      rw [tokens_cons (by simpa using hblank) htoken] at h
      have hmarks := h t rfl
      unfold token? at htoken
      split at htoken
      · rename_i hmark
        exact .inr hmark
      · split at htoken
        · obtain ⟨_, -, he⟩ := Option.map_eq_some_iff.mp htoken
          cases he
          cases hmarks
        · split at htoken
          · cases htoken
            cases hmarks
          · obtain ⟨_, -, he⟩ := Option.map_eq_some_iff.mp htoken
            cases he
            cases hmarks

/-- What stands before a run of tokens is parted from it, if it may stand there at all. -/
theorem stops_of_chain {t : Token} {cs : List Char}
    (h : (t :: tokens cs).IsChain Token.Precedes) : t.marks ∨ Stops cs := by
  by_cases ht : t.marks
  · exact .inl ht
  · refine .inr (stops_of_tokens fun u hu => ?_)
    exact ((List.isChain_cons.mp h).1 u hu).1.resolve_left ht

/-- The tokens of a text with blanks for gaps, once its further commas are gone. -/
theorem Decorated.tokens_dropTrailingCommas {ts : List Token} {cs : List Char}
    (h : Decorated Blanks ts cs) (hchain : ts.IsChain Token.Precedes) :
    tokens (dropTrailingCommas cs) = ts := by
  induction h with
  | @done g hblanks =>
    have hdrop := dropTrailingCommas_plain hblanks.plain []
    rw [List.append_nil, show dropTrailingCommas [] = [] by rw [dropTrailingCommas]] at hdrop
    rw [hdrop, tokens_blanks hblanks]
    rfl
  | @lexeme g w cs t ts hblanks hwrites hrest ih =>
    have ih := ih hchain.tail
    have hopen : t = .mark ',' → (trimStart cs).head?.any isClosingBracket = false := by
      rintro rfl
      exact hrest.head_open fun u hu hcloses =>
        ((List.isChain_cons.mp hchain).1 u hu).2 ⟨rfl, hcloses⟩
    rw [dropTrailingCommas_plain hblanks.plain, dropTrailingCommas_lexeme hwrites hopen,
      tokens_blanks hblanks, tokens_lexeme hwrites, ih]
    refine stops_of_chain ?_
    rwa [ih]
  | @comma g g' cs c ts hblanks hblanks' hcloses _ ih =>
    have ih := ih hchain.tail
    have hne := closingBracket_forall (p := fun c => c != '"' && c != ',' && !isBlank c && isMark c)
      (by decide) (by decide) hcloses
    simp only [Bool.and_eq_true, bne_iff_ne, Bool.not_eq_true'] at hne
    have hhead : (trimStart (g' ++ c :: cs)).head?.any isClosingBracket = true := by
      rw [hblanks'.trimStart, trimStart, List.dropWhile_cons_of_neg (by simp [hne.1.2])]
      simpa using hcloses
    rw [dropTrailingCommas_plain hblanks.plain, dropTrailingCommas_comma hhead,
      dropTrailingCommas_plain hblanks'.plain,
      dropTrailingCommas_cons hne.1.1.1 (fun he => absurd he hne.1.1.2), tokens_blanks hblanks,
      tokens_blanks hblanks', tokens_mark hne.2, ih]

/-- A text whose tokens may stand together is blank, or has a lexeme that ends where the next one may
start. -/
theorem tokens_split {cs : List Char} (hchain : (tokens cs).IsChain Token.Precedes)
    (hlegible : .bad ∉ tokens cs) :
    (Blanks cs ∧ tokens cs = []) ∨
      ∃ g w r t, Blanks g ∧ Token.Writes t w ∧ (t.marks ∨ Stops r) ∧ cs = g ++ (w ++ r) ∧
        tokens cs = t :: tokens r ∧ r.length < cs.length := by
  have hblanks : Blanks (cs.takeWhile isJsonBlank) :=
    fun c hc => List.all_eq_true.mp List.all_takeWhile c hc
  have hsplit := List.takeWhile_append_dropWhile (p := isJsonBlank) (l := cs)
  have htokens : tokens cs = tokens (cs.dropWhile isJsonBlank) := by
    conv_lhs => rw [← hsplit]
    exact tokens_blanks hblanks _
  cases hrest : cs.dropWhile isJsonBlank with
  | nil =>
    rw [hrest, List.append_nil] at hsplit
    rw [htokens, hrest]
    exact .inl ⟨hsplit ▸ hblanks, rfl⟩
  | cons c rest =>
    have hblank : isJsonBlank c = false := by
      have := List.head?_dropWhile_not isJsonBlank cs
      simpa [hrest] using this
    rw [hrest] at hsplit htokens
    cases htoken : token? c rest with
    | none =>
      rw [htokens, tokens_bad hblank htoken] at hlegible
      exact absurd (List.mem_singleton_self _) hlegible
    | some read =>
      obtain ⟨t, r⟩ := read
      rw [htokens, tokens_cons hblank htoken] at hchain
      have hstops := stops_of_chain hchain
      obtain ⟨w, hw, hwrites⟩ := token?_writes htoken hstops
      have hlength : r.length < cs.length := by
        have := token?_length htoken
        rw [← hsplit, List.length_append, List.length_cons]
        omega
      rw [hw] at hsplit
      exact .inr ⟨_, w, r, t, hblanks, hwrites, hstops, hsplit.symm,
        htokens.trans (tokens_cons hblank htoken), hlength⟩

/-- A text whose tokens may stand together is a decorated one, with blanks for gaps and no further
comma. -/
theorem decorated_tokens {cs : List Char} (hchain : (tokens cs).IsChain Token.Precedes)
    (hlegible : .bad ∉ tokens cs) : Decorated Blanks (tokens cs) cs := by
  induction hn : cs.length using Nat.strong_induction_on generalizing cs with
  | _ n ih =>
    rcases tokens_split hchain hlegible with
      ⟨hblanks, hnil⟩ | ⟨g, w, r, t, hblanks, hwrites, -, hcs, htokens, hlength⟩
    · rw [hnil]
      exact .done hblanks
    · rw [htokens] at hchain hlegible ⊢
      have hmore := ih r.length (hn ▸ hlength) hchain.tail (fun hmem => hlegible (.tail _ hmem)) rfl
      rw [hcs]
      exact .lexeme hblanks hwrites hmore

/-- Blanks at the end change nothing. -/
theorem tokens_append_blanks {cs b : List Char} (hchain : (tokens cs).IsChain Token.Precedes)
    (hlegible : .bad ∉ tokens cs) (hb : Blanks b) : tokens (cs ++ b) = tokens cs := by
  induction hn : cs.length using Nat.strong_induction_on generalizing cs with
  | _ n ih =>
    rcases tokens_split hchain hlegible with
      ⟨hblanks, hnil⟩ | ⟨g, w, r, t, hblanks, hwrites, hstops, hcs, htokens, hlength⟩
    · rw [hnil, tokens_blanks hblanks, ← List.append_nil b, tokens_blanks hb]
      rfl
    · rw [htokens] at hchain hlegible ⊢
      have hmore := ih r.length (hn ▸ hlength) hchain.tail (fun hmem => hlegible (.tail _ hmem)) rfl
      have hstops' : t.marks ∨ Stops (r ++ b) := by
        refine hstops.imp id fun hr => ?_
        cases r with
        | cons c r => exact hr
        | nil =>
          intro c hc
          have hmem := List.mem_of_head? hc
          simp [isStop, hb c hmem]
      rw [hcs, List.append_assoc, List.append_assoc, tokens_blanks hblanks, tokens_lexeme hwrites hstops',
        hmore]

/-! ## Documents -/

/-- Reading a text depends on its tokens alone. -/
theorem parse_congr {s s' : String} (h : tokens s.toList = tokens s'.toList) : parse s = parse s' := by
  rw [parse, parse, h]

/-- The strict text of a decorated document has the tokens of the document. -/
theorem tokens_strict {doc text : String} (hdoc : IsDocument doc)
    (htext : Decorated (Gap isJsonBlank) (tokens doc.toList) text.toList) :
    tokens (strict text).toList = tokens doc.toList := by
  rw [strict, String.toList_ofList]
  exact htext.dropComments.tokens_dropTrailingCommas hdoc.wellSpaced.chain

/-- A decorated text stays one if more is a gap. -/
theorem Decorated.imp {gap gap' : List Char → Prop} (himp : ∀ g, gap g → gap' g) {ts : List Token}
    {cs : List Char} (h : Decorated gap ts cs) : Decorated gap' ts cs := by
  induction h with
  | done hgap => exact .done (himp _ hgap)
  | lexeme hgap hwrites _ ih => exact .lexeme (himp _ hgap) hwrites ih
  | comma hgap hgap' hcloses _ ih => exact .comma (himp _ hgap) (himp _ hgap') hcloses ih

theorem Gap.of_blanks {white : Char → Bool} {g : List Char} (h : ∀ c ∈ g, white c = true) :
    Gap white g := by
  induction g with
  | nil => exact .done
  | cons c g ih =>
    obtain ⟨hc, hg⟩ := List.forall_mem_cons.mp h
    exact .blank hc (ih hg)

/-- The end of a document is a decorated text, with its blanks for gaps. -/
theorem decorated_end {white : Char → Bool} (hwhite : ∀ c, isJsonBlank c = true → white c = true)
    {doc : String} (h : IsDocument doc) (before : List Token) {rest : List Char}
    (hsplit : tokens doc.toList = before ++ tokens rest) : Decorated (Gap white) (tokens rest) rest := by
  have hspaced := h.wellSpaced
  rw [hsplit] at hspaced
  have hchain := (List.isChain_append.mp hspaced.chain).2.1
  have hlegible : .bad ∉ tokens rest := fun hmem => hspaced.legible (List.mem_append_right _ hmem)
  exact (decorated_tokens hchain hlegible).imp fun _ hg => .of_blanks fun c hc => hwhite c (hg c hc)

/-- A document is a decorated one. -/
theorem decorated_document {white : Char → Bool} (hwhite : ∀ c, isJsonBlank c = true → white c = true)
    {doc : String} (h : IsDocument doc) : Decorated (Gap white) (tokens doc.toList) doc.toList :=
  decorated_end hwhite h [] (List.nil_append _).symm

end SchemaScaffold.Json
