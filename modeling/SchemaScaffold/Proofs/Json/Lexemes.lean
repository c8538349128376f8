import SchemaScaffold.Proofs.Json.Documents
import SchemaScaffold.Proofs.Json.Texts
import SchemaScaffold.Proofs.Naming.Letters
import SchemaScaffold.Proofs.Source.Lines

/-!
Lexemes of JSON. A token is written as a mark, as a literal, as a number that is read to its end, or
as a name, and it is read from that wherever it stops: a number and a name stop at a blank, at a mark
and at the end of the text. What the tokens of a text were read from are such lexemes.
-/

namespace SchemaScaffold.Json

open Text Source

/-! ## Where a lexeme stops -/

/-- The characters that stop a number or a name: blanks and marks. -/
def isStop (c : Char) : Bool := isJsonBlank c || isMark c

/-- Whether no number and no name goes on in a text. -/
def Stops (cs : List Char) : Prop := ∀ c ∈ cs.head?, isStop c = true

theorem mem_stops {c : Char} (h : isStop c = true) : c ∈ " \t\n\r[]{},:".toList := by
  simp only [isStop, isJsonBlank, isMark, Bool.or_eq_true, beq_iff_eq, List.contains_iff_mem] at h
  have hmarks : "[]{},:".toList ⊆ " \t\n\r[]{},:".toList := by decide
  have hblanks : [' ', '\t', '\n', '\r'] ⊆ " \t\n\r[]{},:".toList := by decide
  rcases h with h | h
  · exact hblanks (by simpa [or_assoc] using h)
  · exact hmarks h

/-- What can be said of every character that stops, can be checked for ten. -/
theorem Stops.head_ne {p : Char → Bool} {cs : List Char} (h : Stops cs)
    (hp : " \t\n\r[]{},:".toList.all (fun c => !p c) = true) : ∀ c ∈ cs.head?, p c = false := by
  intro c hc
  simpa using List.all_eq_true.mp hp c (mem_stops (h c hc))

theorem stops_cons {c : Char} (h : isStop c = true) (cs : List Char) : Stops (c :: cs) := by
  rintro c' ⟨⟩
  exact h

/-- A run of characters ends where the text behind it has none at its start. -/
theorem span_append {p : Char → Bool} {r : List Char} (hr : ∀ c ∈ r.head?, p c = false)
    (cs : List Char) :
    (cs ++ r).takeWhile p = cs.takeWhile p ∧ (cs ++ r).dropWhile p = cs.dropWhile p ++ r := by
  induction cs with
  | nil =>
    cases r with
    | nil => exact ⟨rfl, rfl⟩
    | cons c r =>
      have hc : ¬ p c = true := by simp [hr c rfl]
      exact ⟨List.takeWhile_cons_of_neg hc, List.dropWhile_cons_of_neg hc⟩
  | cons c cs ih =>
    by_cases hc : p c = true
    · simp only [List.cons_append, List.takeWhile_cons_of_pos hc, List.dropWhile_cons_of_pos hc, ih,
        and_self]
    · simp only [List.cons_append, List.takeWhile_cons_of_neg hc, List.dropWhile_cons_of_neg hc,
        and_self]

/-! ## Numbers -/

section Numbers

variable {w r : List Char}

theorem Stops.digit (h : Stops r) : ∀ c ∈ r.head?, c.isDigit = false := h.head_ne (by decide)

theorem whole?_append (h : Stops r) (w : List Char) :
    whole? (w ++ r) = (whole? w).map fun (digits, rest) => (digits, rest ++ r) := by
  cases w with
  | nil =>
    cases r with
    | nil => rfl
    | cons c r =>
      have hzero := h.head_ne (p := (· == '0')) (by decide) c rfl
      rw [List.nil_append, whole?]
      · simp [h.digit c rfl, whole?]
      · rintro rfl
        cases hzero
  | cons c w =>
    obtain ⟨htake, hdrop⟩ := span_append h.digit w
    by_cases hc : c = '0'
    · subst hc
      rfl
    · rw [List.cons_append, whole?, whole?, htake, hdrop]
      · split <;> rfl
      · exact hc
      · exact hc

theorem fraction?_append (h : Stops r) (w : List Char) :
    fraction? (w ++ r) = (fraction? w).map fun (digits, rest) => (digits, rest ++ r) := by
  match w with
  | [] =>
    cases r with
    | nil => rfl
    | cons c r =>
      have hpoint := h.head_ne (p := (· == '.')) (by decide) c rfl
      rw [List.nil_append, fraction?]
      · rfl
      · rintro d cs ⟨rfl, -⟩
        cases hpoint
  | [c] =>
    cases r with
    | nil => simp [fraction?]
    | cons d r =>
      by_cases hc : c = '.'
      · simp [hc, fraction?, h.digit d rfl]
      · simp [fraction?, hc]
  | c :: d :: w =>
    obtain ⟨htake, hdrop⟩ := span_append h.digit w
    by_cases hc : c = '.'
    · subst hc
      simp only [List.cons_append, fraction?, htake, hdrop]
      split <;> rfl
    · simp [fraction?, hc]

theorem powerSign_append (h : Stops r) (w : List Char) :
    powerSign (w ++ r) = ((powerSign w).1, (powerSign w).2 ++ r) := by
  cases w with
  | nil =>
    cases r with
    | nil => rfl
    | cons c r =>
      have hsign := h.head_ne (p := fun c => c == '-' || c == '+') (by decide) c rfl
      rw [List.nil_append, powerSign]
      · rfl
      · rintro cs ⟨rfl, -⟩
        cases hsign
      · rintro cs ⟨rfl, -⟩
        cases hsign
  | cons c w =>
    rw [List.cons_append, powerSign.eq_def, powerSign.eq_def]
    split <;> simp_all

theorem power?_append (h : Stops r) (w : List Char) :
    power? (w ++ r) = (power? w).map fun (power, rest) => (power, rest ++ r) := by
  cases w with
  | nil =>
    cases r with
    | nil => rfl
    | cons c r =>
      have hletter := h.head_ne (p := fun c => c == 'e' || c == 'E') (by decide) c rfl
      simp [power?, hletter]
  | cons c w =>
    obtain ⟨htake, hdrop⟩ := span_append h.digit (powerSign w).2
    have hhead : ((powerSign w).2 ++ r).head?.any Char.isDigit =
        (powerSign w).2.head?.any Char.isDigit := by
      cases (powerSign w).2 with
      | cons d ds => rfl
      | nil =>
        cases r with
        | nil => rfl
        | cons d r => simp [h.digit d rfl]
    simp only [List.cons_append, power?, powerSign_append h, hhead, htake, hdrop]
    split <;> rfl

/-- A number is read from a text alike, whatever it stops at. -/
theorem number?_append (h : Stops r) (w : List Char) :
    number? (w ++ r) = (number? w).map fun (n, rest) => (n, rest ++ r) := by
  have hsign : ((w ++ r).head? == some '-') = (w.head? == some '-') := by
    cases w with
    | cons c w => rfl
    | nil =>
      cases r with
      | nil => rfl
      | cons c r => simpa using h.head_ne (p := (· == '-')) (by decide) c rfl
  have hbehind : (if (w.head? == some '-') = true then (w ++ r).tail else w ++ r) =
      (if (w.head? == some '-') = true then w.tail else w) ++ r := by
    split
    · cases w with
      | nil => contradiction
      | cons c w => rfl
    · rfl
  simp only [number?, hsign, hbehind, whole?_append h]
  cases whole? (if (w.head? == some '-') = true then w.tail else w) with
  | none => rfl
  | some parts =>
    obtain ⟨whole, b⟩ := parts
    have hfraction : (fraction? (b ++ r)).getD ([], b ++ r) =
        (((fraction? b).getD ([], b)).1, ((fraction? b).getD ([], b)).2 ++ r) := by
      rw [fraction?_append h]
      cases fraction? b <;> rfl
    simp only [Option.map_some, Option.bind_eq_bind, Option.bind_some, hfraction, power?_append h]
    cases power? ((fraction? b).getD ([], b)).2 <;> rfl

end Numbers

/-! ## The characters of a lexeme -/

/-- The characters of a number. -/
def isNumberChar (c : Char) : Bool := c.isDigit || "+-.eE".toList.contains c

theorem isNumberChar_of_digit {c : Char} (h : c.isDigit = true) : isNumberChar c = true := by
  simp [isNumberChar, h]

/-- What the passes over relaxed JSON take no notice of: no quote, slash or comma, no closing bracket,
and no blank. -/
def isInert (c : Char) : Bool :=
  !(c == '"' || c == '/' || c == ',' || isClosingBracket c || isBlank c || isJsonBlank c || isMark c)

theorem isInert_of_numberChar {c : Char} (h : isNumberChar c = true) : isInert c = true := by
  rw [isNumberChar, Bool.or_eq_true] at h
  rcases h with h | h
  · exact Naming.alphanum_forall (p := fun c => isInert c = true) (by decide)
      (by simp [Char.isAlphanum, h])
  · have hall : "+-.eE".toList.all isInert = true := by decide
    exact List.all_eq_true.mp hall c (by simpa using h)

theorem isInert_of_name {s : String} (hs : s ∈ valueNames) {c : Char} (hc : c ∈ s.toList) :
    isInert c = true := by
  have hall : valueNames.all (fun s => s.toList.all isInert) = true := by decide
  exact List.all_eq_true.mp (List.all_eq_true.mp hall s hs) c hc

theorem whole?_eq {cs digits rest : List Char} (h : whole? cs = some (digits, rest)) :
    cs = digits ++ rest ∧ digits ≠ [] ∧ ∀ c ∈ digits, c.isDigit = true := by
  unfold whole? at h
  split at h
  · cases h
    exact ⟨rfl, by simp, List.all_eq_true.mp (by decide)⟩
  · rename_i c cs _
    split at h
    · rename_i hc
      cases h
      refine ⟨by simp, by simp, List.forall_mem_cons.mpr ⟨hc, fun d hd => ?_⟩⟩
      exact List.all_eq_true.mp List.all_takeWhile d hd
    · cases h
  · cases h

theorem fraction?_eq {cs digits rest : List Char} (h : fraction? cs = some (digits, rest)) :
    cs = '.' :: (digits ++ rest) ∧ ∀ c ∈ digits, c.isDigit = true := by
  unfold fraction? at h
  split at h
  · split at h
    · rename_i hd
      cases h
      refine ⟨by simp, List.forall_mem_cons.mpr ⟨hd, fun c hc => ?_⟩⟩
      exact List.all_eq_true.mp List.all_takeWhile c hc
    · cases h
  · cases h

theorem powerSign_eq (cs : List Char) :
    ∃ sign, cs = sign ++ (powerSign cs).2 ∧ ∀ c ∈ sign, isNumberChar c = true := by
  unfold powerSign
  split
  · exact ⟨['-'], rfl, List.all_eq_true.mp (by decide)⟩
  · exact ⟨['+'], rfl, List.all_eq_true.mp (by decide)⟩
  · exact ⟨[], rfl, by simp⟩

theorem power?_eq {cs rest : List Char} {power : Bool × List Char}
    (h : power? cs = some (power, rest)) :
    ∃ w, cs = w ++ rest ∧ ∀ c ∈ w, isNumberChar c = true := by
  unfold power? at h
  split at h
  · rename_i c cs
    dsimp only at h
    split at h
    · rename_i hc
      cases h
      rw [Bool.and_eq_true, Bool.or_eq_true, beq_iff_eq, beq_iff_eq] at hc
      have hletter : isNumberChar c = true := by
        rcases hc.1 with rfl | rfl <;> decide
      obtain ⟨sign, hcs, hsign⟩ := powerSign_eq cs
      refine ⟨c :: (sign ++ (powerSign cs).2.takeWhile Char.isDigit), ?_, ?_⟩
      · rw [List.cons_append, List.append_assoc, List.takeWhile_append_dropWhile, ← hcs]
      · simp only [List.forall_mem_cons, List.forall_mem_append]
        refine ⟨hletter, hsign, fun d hd => isNumberChar_of_digit ?_⟩
        exact List.all_eq_true.mp List.all_takeWhile d hd
    · cases h
  · cases h

/-- A number takes some of the characters of a number, and leaves the rest. -/
theorem number?_eq {cs rest : List Char} {n : NumberText} (h : number? cs = some (n, rest)) :
    ∃ w, cs = w ++ rest ∧ w ≠ [] ∧ ∀ c ∈ w, isNumberChar c = true := by
  unfold number? at h
  obtain ⟨⟨digits, b⟩, hwhole, h⟩ := Option.bind_eq_some_iff.mp h
  obtain ⟨hcs, hne, hdigits⟩ := whole?_eq hwhole
  have hsign : ∃ sign, cs = sign ++ (digits ++ b) ∧ ∀ c ∈ sign, isNumberChar c = true := by
    split at hcs
    · rename_i hhead
      obtain ⟨tail, rfl⟩ := List.head?_eq_some_iff.mp (beq_iff_eq.mp hhead)
      exact ⟨['-'], by rw [← hcs]; rfl, List.all_eq_true.mp (by decide)⟩
    · exact ⟨[], hcs, by simp⟩
  have hfraction : ∃ point, b = point ++ ((fraction? b).getD ([], b)).2 ∧
      ∀ c ∈ point, isNumberChar c = true := by
    cases hf : fraction? b with
    | none => exact ⟨[], rfl, by simp⟩
    | some parts =>
      obtain ⟨hb, hpoint⟩ := fraction?_eq hf
      refine ⟨'.' :: parts.1, hb, List.forall_mem_cons.mpr ⟨by decide, fun c hc => ?_⟩⟩
      exact isNumberChar_of_digit (hpoint c hc)
  obtain ⟨sign, hcs, hsign⟩ := hsign
  obtain ⟨point, hb, hpoint⟩ := hfraction
  have hfront : ∀ c ∈ sign ++ (digits ++ point), isNumberChar c = true := by
    simp only [List.forall_mem_append]
    exact ⟨hsign, fun c hc => isNumberChar_of_digit (hdigits c hc), hpoint⟩
  dsimp only at h
  split at h
  · rename_i power behind hpower
    cases h
    obtain ⟨w, hbehind, hw⟩ := power?_eq hpower
    refine ⟨(sign ++ (digits ++ point)) ++ w, ?_, by simp [hne], ?_⟩
    · rw [hcs, hb, hbehind]
      simp
    · exact List.forall_mem_append.mpr ⟨hfront, hw⟩
  · cases h
    refine ⟨sign ++ (digits ++ point), ?_, by simp [hne], hfront⟩
    rw [List.append_assoc, List.append_assoc, ← hb, hcs]

/-! ## How tokens are written -/

/-- How a token is written: a number in any way that is read as it. -/
def Token.Writes : Token → List Char → Prop
  | .mark c, w => isMark c = true ∧ w = [c]
  | .string body, w => closeLiteral? '"' false body = some (body, []) ∧ w = '"' :: body
  | .number n, w => number? w = some (n, [])
  | .name s, w => s ∈ valueNames ∧ w = s.toList
  | .bad, _ => False

/-- No name starts another one, and none starts a number. -/
theorem name?_toList {s : String} (hs : s ∈ valueNames) (r : List Char) :
    name? (s.toList ++ r) = some (s, r) := by
  have hone : ∀ s ∈ valueNames, ∀ t ∈ valueNames,
      s.toList <+: t.toList ∨ t.toList <+: s.toList → s = t := by decide
  have hsome : (name? (s.toList ++ r)).isSome := by
    refine List.findSome?_isSome_iff.mpr ⟨s, hs, ?_⟩
    rw [dropText?_append]
    rfl
  obtain ⟨⟨t, rest⟩, ht⟩ := Option.isSome_iff_exists.mp hsome
  obtain ⟨t', ht', he⟩ := List.exists_of_findSome?_eq_some ht
  obtain ⟨rest', hrest, he⟩ := Option.map_eq_some_iff.mp he
  cases he
  have heq := dropText?_eq hrest
  have hst := hone s hs t ht' (List.prefix_or_prefix_of_prefix (List.prefix_append _ _)
    ⟨rest, heq.symm⟩)
  subst hst
  rw [ht, List.append_cancel_left heq]

theorem number?_name {s : String} (hs : s ∈ valueNames) (r : List Char) :
    number? (s.toList ++ r) = none := by
  simp only [valueNames, List.mem_cons, List.not_mem_nil, or_false] at hs
  rcases hs with rfl | rfl | rfl | rfl | rfl | rfl <;> simp [number?, whole?]

theorem name?_number {w : List Char} {n : NumberText} {rest : List Char}
    (h : number? w = some (n, rest)) : name? w = none := by
  cases hname : name? w with
  | none => rfl
  | some found =>
    obtain ⟨s, hs, he⟩ := List.exists_of_findSome?_eq_some hname
    obtain ⟨rest', hrest, -⟩ := Option.map_eq_some_iff.mp he
    rw [dropText?_eq hrest, number?_name hs] at h
    cases h

/-- The characters of a number or a name. -/
theorem Token.Writes.inert {t : Token} {w : List Char} (h : t.Writes w)
    (ht : (∃ n, t = .number n) ∨ ∃ s, t = .name s) : w ≠ [] ∧ ∀ c ∈ w, isInert c = true := by
  rcases ht with ⟨n, rfl⟩ | ⟨s, rfl⟩
  · obtain ⟨v, hv, hne, hchars⟩ := number?_eq h
    rw [List.append_nil] at hv
    subst hv
    exact ⟨hne, fun c hc => isInert_of_numberChar (hchars c hc)⟩
  · obtain ⟨hs, rfl⟩ := h
    have hne : ∀ s ∈ valueNames, s.toList ≠ [] := by decide
    exact ⟨hne s hs, fun c hc => isInert_of_name hs hc⟩

/-- What starts a lexeme is no blank, and closes something only if the token does. -/
theorem Token.Writes.head {t : Token} {w : List Char} (h : t.Writes w) :
    ∃ c v, w = c :: v ∧ isBlank c = false ∧ isJsonBlank c = false ∧ isClosingBracket c = t.closes := by
  have hinert : w ≠ [] ∧ (∀ c ∈ w, isInert c = true) →
      ∃ c v, w = c :: v ∧ isBlank c = false ∧ isJsonBlank c = false ∧ isClosingBracket c = false := by
    rintro ⟨hne, hchars⟩
    obtain ⟨c, v, rfl⟩ := List.exists_cons_of_ne_nil hne
    have hc := hchars c (by simp)
    simp only [isInert, Bool.not_eq_true', Bool.or_eq_false_iff] at hc
    exact ⟨c, v, rfl, hc.1.1.2, hc.1.2, hc.1.1.1.2⟩
  cases t with
  | mark c =>
    obtain ⟨hc, rfl⟩ := h
    have hall : "[]{},:".toList.all (fun c => !isBlank c && !isJsonBlank c) = true := by decide
    have hblank := List.all_eq_true.mp hall c (by simpa [isMark] using hc)
    rw [Bool.and_eq_true, Bool.not_eq_true', Bool.not_eq_true'] at hblank
    exact ⟨c, [], rfl, hblank.1, hblank.2, rfl⟩
  | string body =>
    obtain ⟨-, rfl⟩ := h
    exact ⟨'"', body, rfl, by decide, by decide, rfl⟩
  | number n => exact hinert (h.inert (.inl ⟨n, rfl⟩))
  | name s => exact hinert (h.inert (.inr ⟨s, rfl⟩))
  | bad => exact h.elim

/-- A lexeme is read as its token, up to where it stops. -/
theorem tokens_lexeme {t : Token} {w r : List Char} (h : t.Writes w) (hr : t.marks ∨ Stops r) :
    tokens (w ++ r) = t :: tokens r := by
  obtain ⟨c, v, rfl, -, hblank, -⟩ := h.head
  refine tokens_cons hblank ?_
  have hinert (ht : (∃ n, t = .number n) ∨ ∃ s, t = .name s) :
      isMark c = false ∧ (c == '"') = false := by
    have hc := (h.inert ht).2 c (by simp)
    simp only [isInert, Bool.not_eq_true', Bool.or_eq_false_iff] at hc
    exact ⟨hc.2, hc.1.1.1.1.1.1⟩
  cases t with
  | mark m =>
    obtain ⟨hm, hw⟩ := h
    cases hw
    rw [token?, if_pos hm]
    rfl
  | string body =>
    obtain ⟨hbody, hw⟩ := h
    cases hw
    rw [token?, if_neg (by decide), if_pos (by decide),
      show v.append r = v ++ r from rfl, closeLiteral?_append_some hbody]
    rfl
  | number n =>
    obtain ⟨hmark, hquote⟩ := hinert (.inl ⟨n, rfl⟩)
    have hstops : Stops r := by simpa [Token.marks] using hr
    have hnumber : number? (c :: v ++ r) = some (n, r) := by
      rw [number?_append hstops, show number? (c :: v) = some (n, []) from h]
      rfl
    have hname : name? (c :: (v ++ r)) = none := name?_number hnumber
    rw [token?, hmark, hquote, if_neg Bool.false_ne_true, if_neg Bool.false_ne_true,
      show v.append r = v ++ r from rfl, hname]
    dsimp only
    rw [← List.cons_append, hnumber]
    rfl
  | name s =>
    obtain ⟨hmark, hquote⟩ := hinert (.inr ⟨s, rfl⟩)
    obtain ⟨hs, hw⟩ := h
    have hname : name? (c :: v ++ r) = some (s, r) := by rw [hw, name?_toList hs]
    rw [token?, hmark, hquote, if_neg Bool.false_ne_true, if_neg Bool.false_ne_true,
      show v.append r = v ++ r from rfl, ← List.cons_append, hname]
  | bad => exact h.elim

/-- What closes a literal is found in it, whatever comes behind, and also where a literal may go
over several lines. -/
theorem closeLiteral?_self {q : Char} {m m' : Bool} (hm : m = true → m' = true)
    {cs body rest : List Char} (h : closeLiteral? q m cs = some (body, rest)) :
    closeLiteral? q m' body = some (body, []) := by
  fun_induction closeLiteral? q m cs generalizing body rest with
  | case1 | case2 | case3 | case6 => cases h
  | case4 c cs hc ih =>
    obtain ⟨⟨b, r⟩, hb, he⟩ := Option.map_eq_some_iff.mp h
    cases he
    rw [closeLiteral?, if_neg hc, ih hb]
    rfl
  | case5 c cs hnil hesc hcq =>
    cases h
    rw [closeLiteral?_cons (ne_backslash hnil hesc), if_pos hcq]
  | case7 c cs hnil hesc hcq hnl ih =>
    have hbreak : ¬ (c == '\n' && !m') = true := by
      cases m with
      | true => simp [hm rfl]
      | false => exact fun h => hnl (by simpa using (Bool.and_eq_true_iff.mp h).1)
    obtain ⟨⟨b, r⟩, hb, he⟩ := Option.map_eq_some_iff.mp h
    cases he
    rw [closeLiteral?_cons (ne_backslash hnil hesc), if_neg hcq, if_neg hbreak, ih hb]
    rfl

/-- What a token was read from is a lexeme of it, if it stopped there. -/
theorem token?_writes {c : Char} {cs r : List Char} {t : Token} (h : token? c cs = some (t, r))
    (hr : t.marks ∨ Stops r) : ∃ w, c :: cs = w ++ r ∧ t.Writes w := by
  unfold token? at h
  split at h
  · rename_i hmark
    cases h
    exact ⟨[c], rfl, hmark, rfl⟩
  · split at h
    · rename_i hquote
      obtain ⟨⟨body, rest⟩, hbody, he⟩ := Option.map_eq_some_iff.mp h
      cases he
      refine ⟨'"' :: body, ?_, closeLiteral?_self id hbody, rfl⟩
      rw [beq_iff_eq.mp hquote, List.cons_append, closeLiteral?_append hbody]
    · split at h
      · rename_i s rest hname
        cases h
        obtain ⟨s', hs, he⟩ := List.exists_of_findSome?_eq_some hname
        obtain ⟨rest', hrest, he⟩ := Option.map_eq_some_iff.mp he
        cases he
        exact ⟨_, dropText?_eq hrest, hs, rfl⟩
      · obtain ⟨⟨n, rest⟩, hnumber, he⟩ := Option.map_eq_some_iff.mp h
        cases he
        have hstops : Stops r := by simpa [Token.marks] using hr
        obtain ⟨w, hw, -, -⟩ := number?_eq hnumber
        rw [hw, number?_append hstops] at hnumber
        obtain ⟨⟨n', rest⟩, hread, he⟩ := Option.map_eq_some_iff.mp hnumber
        have hrest : rest = [] := List.append_left_eq_self.mp (Prod.mk.inj he).2
        refine ⟨w, hw, ?_⟩
        show number? w = some (n, [])
        rw [hread, (Prod.mk.inj he).1, hrest]

end SchemaScaffold.Json
