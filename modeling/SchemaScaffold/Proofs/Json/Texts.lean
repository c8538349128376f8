import SchemaScaffold.Column.Basic
import SchemaScaffold.Json.Parser
import SchemaScaffold.Proofs.Source.Masking
import SchemaScaffold.Proofs.Text.Literals
import SchemaScaffold.Source.Scan

/-!
Texts in JSON. A text is kept in UTF-16 units, which give its characters back; a literal is read as
the units of the text it was written for, whatever characters stand in it; and a list of literals is
read as the list of their texts. The reader bounds its tokens and its calls by the length of what it
reads, and neither bound cuts anything off.
-/

namespace SchemaScaffold.Text

/-! ## UTF-16 units -/

theorem toNat_toUInt16 {n : Nat} (h : n < 0x10000) : n.toUInt16.toNat = n := by
  simp [Nat.toUInt16, UInt16.toNat_ofNat', Nat.mod_eq_of_lt h]

theorem isHighSurrogate_iff (u : UInt16) :
    isHighSurrogate u = true ↔ 0xD800 ≤ u.toNat ∧ u.toNat < 0xDC00 := by
  simp [isHighSurrogate, UInt16.le_iff_toNat_le, UInt16.lt_iff_toNat_lt]

theorem isLowSurrogate_iff (u : UInt16) :
    isLowSurrogate u = true ↔ 0xDC00 ≤ u.toNat ∧ u.toNat < 0xE000 := by
  simp [isLowSurrogate, UInt16.le_iff_toNat_le, UInt16.lt_iff_toNat_lt]

/-- The units of a character are read as that character, alone or as a surrogate pair. -/
theorem charsOf_charUnits (c : Char) (us : List UInt16) :
    charsOf (charUnits c ++ us) = c :: charsOf us := by
  have hvalid : c.toNat < 0xD800 ∨ (0xDFFF < c.toNat ∧ c.toNat < 0x110000) := c.valid
  unfold charUnits
  split
  · rename_i h
    have hnat := toNat_toUInt16 h
    have hhigh : isHighSurrogate c.toNat.toUInt16 = false := by
      rw [Bool.eq_false_iff, ne_eq, isHighSurrogate_iff, hnat]
      omega
    have hlow : isLowSurrogate c.toNat.toUInt16 = false := by
      rw [Bool.eq_false_iff, ne_eq, isLowSurrogate_iff, hnat]
      omega
    have hunit : charsOf.unitChar c.toNat.toUInt16 = c := by
      simp only [charsOf.unitChar, hhigh, hlow, hnat, Char.ofNat_toNat]
      rfl
    cases us with
    | nil => simp [charsOf, hunit]
    | cons v us => simp [charsOf, hhigh, hunit]
  · rename_i h
    generalize hn : c.toNat - 0x10000 = n
    have hbound : n < 0x100000 := by omega
    have hhigh : (0xD800 + n / 0x400).toUInt16.toNat = 0xD800 + n / 0x400 := toNat_toUInt16 (by omega)
    have hlow : (0xDC00 + n % 0x400).toUInt16.toNat = 0xDC00 + n % 0x400 := toNat_toUInt16 (by omega)
    have hpair : (isHighSurrogate (0xD800 + n / 0x400).toUInt16 &&
        isLowSurrogate (0xDC00 + n % 0x400).toUInt16) = true := by
      rw [Bool.and_eq_true, isHighSurrogate_iff, isLowSurrogate_iff, hhigh, hlow]
      omega
    have hback : 0x10000 + (0xD800 + n / 0x400 - 0xD800) * 0x400 + (0xDC00 + n % 0x400 - 0xDC00) =
        c.toNat := by omega
    simp only [List.cons_append, List.nil_append, charsOf, hpair, if_true, hhigh, hlow, hback,
      Char.ofNat_toNat]

theorem charsOf_unitsOf (cs : List Char) : charsOf (unitsOf cs) = cs := by
  induction cs with
  | nil => rfl
  | cons c cs ih => rw [unitsOf, List.flatMap_cons, charsOf_charUnits, ← unitsOf, ih]

end SchemaScaffold.Text

namespace SchemaScaffold.Json

open Text Source

/-! ## Literals -/

/-- However a character is written in a literal, the literal does not close in it. -/
theorem closeLiteral?_jsonChar (c : Char) (cs : List Char) :
    closeLiteral? '"' false (jsonChar c ++ cs) =
      (closeLiteral? '"' false cs).map fun (body, rest) => (jsonChar c ++ body, rest) := by
  have hdigit : ∀ n, hexDigit (n % 16) ≠ '\\' ∧ hexDigit (n % 16) ≠ '"' ∧ hexDigit (n % 16) ≠ '\n' := by
    have hall : ∀ n : Fin 16, hexDigit n ≠ '\\' ∧ hexDigit n ≠ '"' ∧ hexDigit n ≠ '\n' := by decide
    exact fun n => hall ⟨n % 16, by omega⟩
  unfold jsonChar
  split
  iterate 7 simp [closeLiteral?]
  · rename_i h1 h2 h3 _ _ _ _
    split
    · simp [unicodeEscape, closeLiteral?, closeLiteral?_cons, hdigit]
      cases closeLiteral? '"' false cs <;> rfl
    · rw [List.singleton_append, closeLiteral?_cons h2]
      simp [show c ≠ '"' from h1, show c ≠ '\n' from h3]

theorem literalUnits?_cons {c : Char} (hquote : c ≠ '"') (hslash : c ≠ '\\')
    (hlow : ¬ c.toNat < 32) (cs : List Char) :
    literalUnits? (c :: cs) = (literalUnits? cs).map (charUnits c ++ ·) := by
  rw [literalUnits?]
  · simp [hquote, hslash, hlow]
    cases literalUnits? cs <;> rfl
  · exact fun he _ => hquote he
  · exact fun _ _ _ _ _ he _ => hslash he
  · exact fun _ _ he _ => hslash he

theorem hexUnit?_low {n : Nat} (h : n < 32) :
    hexUnit? (hexDigit (n / 4096 % 16)) (hexDigit (n / 256 % 16)) (hexDigit (n / 16 % 16))
      (hexDigit (n % 16)) = some n.toUInt16 := by
  have hall : ∀ n : Fin 32, hexUnit? (hexDigit (n / 4096 % 16)) (hexDigit (n / 256 % 16))
      (hexDigit (n / 16 % 16)) (hexDigit (n % 16)) = some n.val.toUInt16 := by decide
  exact hall ⟨n, h⟩

/-- However a character is written in a literal, it is read as itself. -/
theorem literalUnits?_jsonChar (c : Char) (cs : List Char) :
    literalUnits? (jsonChar c ++ cs) = (literalUnits? cs).map (charUnits c ++ ·) := by
  unfold jsonChar
  split
  iterate 7
    simp [literalUnits?, escaped?]
    cases literalUnits? cs <;> rfl
  rename_i h1 h2 _ _ _ _ _
  split
  · rename_i hlow
    have hunits : charUnits c = [c.toNat.toUInt16] := if_pos (by omega)
    simp only [unicodeEscape, List.cons_append, List.nil_append, literalUnits?, hexUnit?_low hlow,
      hunits]
    cases literalUnits? cs <;> rfl
  · rename_i hlow
    exact literalUnits?_cons h1 h2 hlow cs

theorem literalUnits?_body (cs : List Char) :
    literalUnits? (cs.flatMap jsonChar ++ ['"']) = some (unitsOf cs) := by
  induction cs with
  | nil => rfl
  | cons c cs ih =>
    rw [List.flatMap_cons, List.append_assoc, literalUnits?_jsonChar, ih]
    rfl

theorem closeLiteral?_body (cs rest : List Char) :
    closeLiteral? '"' false (cs.flatMap jsonChar ++ '"' :: rest) =
      some (cs.flatMap jsonChar ++ ['"'], rest) := by
  induction cs with
  | nil => simp [closeLiteral?]
  | cons c cs ih =>
    rw [List.flatMap_cons, List.append_assoc, closeLiteral?_jsonChar, ih]
    simp

/-! ## Tokens -/

theorem whole?_length {cs digits rest : List Char} (h : whole? cs = some (digits, rest)) :
    rest.length < cs.length := by
  unfold whole? at h
  split at h
  · cases h
    exact Nat.lt_succ_self _
  · split at h
    · cases h
      exact Nat.lt_succ_of_le (dropWhile_length_le _ _)
    · cases h
  · cases h

theorem fraction?_length {cs digits rest : List Char} (h : fraction? cs = some (digits, rest)) :
    rest.length ≤ cs.length := by
  unfold fraction? at h
  split at h
  · split at h
    · cases h
      exact Nat.le_succ_of_le (Nat.le_succ_of_le (dropWhile_length_le _ _))
    · cases h
  · cases h

theorem powerSign_length (cs : List Char) : (powerSign cs).2.length ≤ cs.length := by
  unfold powerSign
  split <;> simp

theorem power?_length {cs rest : List Char} {power : Bool × List Char}
    (h : power? cs = some (power, rest)) : rest.length ≤ cs.length := by
  unfold power? at h
  split at h
  · rename_i c cs
    dsimp only at h
    split at h
    · cases h
      exact Nat.le_succ_of_le (Nat.le_trans (dropWhile_length_le _ _) (powerSign_length cs))
    · cases h
  · cases h

theorem number?_length {cs rest : List Char} {n : NumberText} (h : number? cs = some (n, rest)) :
    rest.length < cs.length := by
  unfold number? at h
  obtain ⟨⟨digits, behind⟩, hwhole, h⟩ := Option.bind_eq_some_iff.mp h
  have hstart : (if cs.head? == some '-' then cs.tail else cs).length ≤ cs.length := by
    split <;> simp
  have hfraction : ((fraction? behind).getD ([], behind)).2.length ≤ behind.length := by
    cases hf : fraction? behind with
    | none => exact Nat.le_refl _
    | some parts => exact fraction?_length hf
  have hfront := Nat.lt_of_lt_of_le (whole?_length hwhole) hstart
  dsimp only at h
  split at h
  · rename_i power behind' hpower
    cases h
    have := power?_length hpower
    omega
  · cases h
    omega

theorem name?_length {cs rest : List Char} {s : String} (h : name? cs = some (s, rest)) :
    rest.length < cs.length := by
  obtain ⟨s', hs, he⟩ := List.exists_of_findSome?_eq_some h
  obtain ⟨rest', hrest, he⟩ := Option.map_eq_some_iff.mp he
  cases he
  have hpos : ∀ s ∈ valueNames, 0 < s.toList.length := by decide
  have := dropText?_length hrest
  have := hpos s hs
  omega

/-- A token takes at least one character. -/
theorem token?_length {c : Char} {cs rest : List Char} {t : Token}
    (h : token? c cs = some (t, rest)) : rest.length ≤ cs.length := by
  unfold token? at h
  split at h
  · cases h
    exact Nat.le_refl _
  · split at h
    · obtain ⟨⟨body, behind⟩, hclose, he⟩ := Option.map_eq_some_iff.mp h
      cases he
      rw [← closeLiteral?_append hclose, List.length_append]
      exact Nat.le_add_left _ _
    · split at h
      · rename_i hname
        cases h
        exact Nat.le_of_lt_succ (name?_length hname)
      · obtain ⟨⟨n, behind⟩, hnumber, he⟩ := Option.map_eq_some_iff.mp h
        cases he
        exact Nat.le_of_lt_succ (number?_length hnumber)

/-- The bound on the count of tokens never cuts them off. -/
theorem tokensUpTo_eq {n m : Nat} {cs : List Char} (hn : cs.length ≤ n) (hm : cs.length ≤ m) :
    tokensUpTo n cs = tokensUpTo m cs := by
  have hnil (n : Nat) : tokensUpTo n [] = [] := by cases n <;> rfl
  induction n generalizing m cs with
  | zero => rw [List.eq_nil_of_length_eq_zero (Nat.le_zero.mp hn), hnil, hnil]
  | succ n ih =>
    cases m with
    | zero => rw [List.eq_nil_of_length_eq_zero (Nat.le_zero.mp hm), hnil, hnil]
    | succ m =>
      have hdrop := dropWhile_length_le isJsonBlank cs
      rw [tokensUpTo, tokensUpTo]
      split
      · rfl
      · rename_i c behind hbehind
        rw [hbehind, List.length_cons] at hdrop
        split
        · rename_i t rest htoken
          have := token?_length htoken
          rw [ih (m := m) (by omega) (by omega)]
        · rfl

theorem tokens_blank {c : Char} (h : isJsonBlank c = true) (cs : List Char) :
    tokens (c :: cs) = tokens cs := by
  have hbound : tokensUpTo cs.length cs = tokensUpTo (cs.length + 1) cs :=
    tokensUpTo_eq (Nat.le_refl _) (Nat.le_succ _)
  rw [tokens, tokens, List.length_cons, hbound, tokensUpTo, tokensUpTo, List.dropWhile_cons_of_pos h]

theorem tokens_cons {c : Char} {cs rest : List Char} {t : Token} (hblank : isJsonBlank c = false)
    (h : token? c cs = some (t, rest)) : tokens (c :: cs) = t :: tokens rest := by
  rw [tokens, tokens, List.length_cons, tokensUpTo, List.dropWhile_cons_of_neg (by simp [hblank])]
  simp only [h]
  rw [tokensUpTo_eq (token?_length h) (Nat.le_refl _)]

theorem tokens_mark {c : Char} (h : isMark c = true) (cs : List Char) :
    tokens (c :: cs) = .mark c :: tokens cs := by
  have hblank : isJsonBlank c = false := by
    have hall : "[]{},:".toList.all (fun c => !isJsonBlank c) = true := by decide
    simpa using List.all_eq_true.mp hall c (by simpa [isMark] using h)
  exact tokens_cons hblank (by rw [token?, if_pos h])

/-- The token of a text as it is written. -/
def textToken (s : String) : Token := .string (s.toList.flatMap jsonChar ++ ['"'])

theorem tokens_jsonLiteral (s : String) (rest : List Char) :
    tokens ((jsonLiteral s).toList ++ rest) = textToken s :: tokens rest := by
  rw [jsonLiteral, String.toList_ofList, List.append_assoc, List.cons_append, List.singleton_append]
  refine tokens_cons (by decide) ?_
  rw [token?, if_neg (by decide), if_pos (by decide), closeLiteral?_body]
  rfl

theorem literal_textToken (s : String) :
    literal (s.toList.flatMap jsonChar ++ ['"']) = .ok (key s) := by
  rw [literal, literalUnits?_body, key]

/-! ## Lists of texts -/

/-- The tokens of a list of texts, behind its opening bracket. -/
def listTokens : List String → List Token
  | [] => [.mark ']']
  | [s] => [textToken s, .mark ']']
  | s :: t :: values => textToken s :: .mark ',' :: listTokens (t :: values)

theorem tokens_enumLiteral (values : List String) :
    tokens (enumLiteral values).toList = .mark '[' :: listTokens values := by
  have hitems : ∀ values : List String,
      tokens (", ".toList.intercalate ((values.map jsonLiteral).map String.toList) ++ [']']) =
        listTokens values := by
    intro values
    induction values with
    | nil => exact tokens_mark (by decide) []
    | cons s values ih =>
      cases values with
      | nil =>
        have hend : tokens [']'] = [.mark ']'] := tokens_mark (by decide) []
        simp only [List.map_cons, List.map_nil, List.intercalate_singleton, tokens_jsonLiteral, hend]
        rfl
      | cons t values =>
        rw [List.map_cons, List.map_cons] at ih ⊢
        rw [List.map_cons, List.map_cons, List.intercalate_cons_cons, List.append_assoc,
          List.append_assoc, tokens_jsonLiteral]
        have hcomma (rest : List Char) : tokens (", ".toList ++ rest) = .mark ',' :: tokens rest :=
          (tokens_mark (by decide) _).trans (congrArg _ (tokens_blank (by decide) rest))
        rw [hcomma, ih, listTokens]
  simp only [enumLiteral, String.toList_append, String.toList_intercalate, List.append_assoc]
  exact (tokens_mark (by decide) _).trans (congrArg _ (hitems values))

theorem readValue_text (n levels : Nat) (s : String) (rest : List Token) :
    readValue (n + 1) levels (textToken s :: rest) = .ok (.text (key s), rest) := by
  rw [textToken, readValue, literal_textToken]
  rfl

theorem readItems_texts {values : List String} (hne : values ≠ []) {n : Nat} (hn : values.length < n)
    (levels : Nat) :
    readItems n levels (listTokens values) = .ok (values.map fun s => .text (key s), []) := by
  induction values generalizing n with
  | nil => exact absurd rfl hne
  | cons s values ih =>
    obtain ⟨n, rfl⟩ : ∃ k, n = k + 2 := ⟨n - 2, by simp at hn; omega⟩
    cases values with
    | nil =>
      rw [listTokens, readItems, readValue_text]
      rfl
    | cons t values =>
      rw [listTokens, readItems, readValue_text]
      have hrest := ih (by simp) (n := n + 1) (by simp at hn ⊢; omega)
      show (readItems (n + 1) levels (listTokens (t :: values)) >>= _) = _
      rw [hrest]
      rfl

/-- A list of texts is read back as it was written. -/
theorem parse_enumLiteral (values : List String) :
    parse (enumLiteral values) = .ok (.list (values.map fun s => .text (key s))) := by
  have hlength : values.length < 2 * (tokens (enumLiteral values).toList).length := by
    have hle : ∀ values : List String, values.length ≤ (listTokens values).length := by
      intro values
      induction values with
      | nil => exact Nat.zero_le _
      | cons s values ih =>
        cases values with
        | nil => simp [listTokens]
        | cons t values =>
          simp only [listTokens, List.length_cons] at ih ⊢
          omega
    have := hle values
    rw [tokens_enumLiteral, List.length_cons]
    omega
  rw [parse]
  generalize 2 * (tokens (enumLiteral values).toList).length = n at hlength
  rw [tokens_enumLiteral]
  cases values with
  | nil => rfl
  | cons s values =>
    have hitems := readItems_texts (List.cons_ne_nil s values) hlength (nestingLimit - 1)
    have hread : readValue (n + 1) nestingLimit (.mark '[' :: listTokens (s :: values)) =
        (readItems n (nestingLimit - 1) (listTokens (s :: values)) >>= fun read =>
          pure (.list read.1, read.2)) := by
      cases values <;> rfl
    simp only [hread, hitems]
    rfl

/-- The strings of a list of texts. -/
def Value.texts? : Value → Option (List String)
  | .list items => items.mapM fun
    | .text units => some (String.ofList (charsOf units))
    | _ => none
  | _ => none

theorem texts?_list (values : List String) :
    (Value.list (values.map fun s => .text (key s))).texts? = some values := by
  rw [Value.texts?, List.mapM_map]
  induction values with
  | nil => rfl
  | cons s values ih =>
    rw [List.mapM_cons, ih]
    simp [key, charsOf_unitsOf]

end SchemaScaffold.Json
