import SchemaScaffold.Proofs.Source.Blocks
import SchemaScaffold.Text.Quoted

/-!
Escaped texts in double quotes. Escaping puts a backslash before each character that could end a
literal or break its line, backslashes included, so a backslash always stands before the character that
it escapes and the first bare quote is the closing one. Reading such a text from left to right gives
back what was escaped, and nothing but an escaped text can be read so.
-/

namespace SchemaScaffold.Source

open Text

/-! ## Replacing characters one after the other -/

theorem escapeChar_plain {c : Char} (hbackslash : c ≠ '\\') (hquote : c ≠ '"') (hbreak : c ≠ '\n') :
    escapeChar c = [c] := by
  rw [escapeChar] <;> assumption

/-- Puts `text` in the place of every `c`. -/
def replaceChar (c : Char) (text cs : List Char) : List Char :=
  cs.flatMap fun d => if d == c then text else [d]

/-- Backslashes are doubled first, so the backslashes that the later replacements bring in stay single. -/
theorem flatMap_escapeChar (s : List Char) : s.flatMap escapeChar =
    replaceChar '\n' ['\\', 'n'] (replaceChar '"' ['\\', '"'] (replaceChar '\\' ['\\', '\\'] s)) := by
  have hchar : ∀ c : Char, escapeChar c =
      replaceChar '\n' ['\\', 'n'] (replaceChar '"' ['\\', '"'] (replaceChar '\\' ['\\', '\\'] [c])) := by
    intro c
    by_cases hbackslash : c = '\\'
    · rw [hbackslash]
      decide
    by_cases hquote : c = '"'
    · rw [hquote]
      decide
    by_cases hbreak : c = '\n'
    · rw [hbreak]
      decide
    rw [escapeChar_plain hbackslash hquote hbreak]
    simp [replaceChar, hbackslash, hquote, hbreak]
  have happend : ∀ (c : Char) (text a b : List Char),
      replaceChar c text (a ++ b) = replaceChar c text a ++ replaceChar c text b :=
    fun _ _ _ _ => List.flatMap_append
  induction s with
  | nil => rfl
  | cons c s ih =>
    rw [List.flatMap_cons, ih, hchar, ← happend, ← happend, ← happend, List.singleton_append]

/-! ## Reading an escaped text -/

/-- The character that is escaped by a backslash and `d`. -/
def escaped? (d : Char) : Option Char :=
  match d with
  | '\\' => some '\\'
  | '"' => some '"'
  | 'n' => some '\n'
  | _ => none

/-- Reads a text from left to right. There are no other escapes, and no bare quotes and line breaks. -/
def unescape? : List Char → Option (List Char)
  | [] => some []
  | ['\\'] => none
  | '\\' :: d :: cs => do
    let c ← escaped? d
    let text ← unescape? cs
    some (c :: text)
  | c :: cs => if c == '"' || c == '\n' then none else (unescape? cs).map (c :: ·)

theorem unescape?_cons {c : Char} (hc : c ≠ '\\') (cs : List Char) :
    unescape? (c :: cs) = if c == '"' || c == '\n' then none else (unescape? cs).map (c :: ·) := by
  rw [unescape?]
  · exact fun he _ => hc he
  · exact fun _ _ he _ => hc he

/-- A character is written as an escape of two characters, or it stands for itself. -/
theorem escapeChar_cases (c : Char) :
    (∃ d, escapeChar c = ['\\', d] ∧ escaped? d = some c ∧ d ≠ '\n') ∨
      (escapeChar c = [c] ∧ c ≠ '\\' ∧ c ≠ '"' ∧ c ≠ '\n') := by
  unfold escapeChar
  split
  · exact .inl ⟨'\\', rfl, rfl, by decide⟩
  · exact .inl ⟨'"', rfl, rfl, by decide⟩
  · exact .inl ⟨'n', rfl, rfl, by decide⟩
  · rename_i hbackslash hquote hbreak
    exact .inr ⟨rfl, hbackslash, hquote, hbreak⟩

theorem escapeChar_of_escaped {c d : Char} (h : escaped? d = some c) : escapeChar c = ['\\', d] := by
  unfold escaped? at h
  split at h
  · cases h; rfl
  · cases h; rfl
  · cases h; rfl
  · cases h

theorem unescape?_escape (s : List Char) : unescape? (s.flatMap escapeChar) = some s := by
  induction s with
  | nil => rfl
  | cons c s ih =>
    rw [List.flatMap_cons]
    rcases escapeChar_cases c with ⟨d, hc, hd, -⟩ | ⟨hc, hbackslash, hquote, hbreak⟩
    · rw [hc, List.cons_append, List.singleton_append, unescape?, hd, ih]
      rfl
    · rw [hc, List.singleton_append, unescape?_cons hbackslash, ih, if_neg (by simp [hquote, hbreak])]
      rfl

/-- What can be read is an escaped text. -/
theorem eq_escape_of_unescape {cs s : List Char} (h : unescape? cs = some s) :
    cs = s.flatMap escapeChar := by
  fun_induction unescape? cs generalizing s with
  | case1 =>
    cases h
    rfl
  | case2 => cases h
  | case3 d cs ih =>
    obtain ⟨c, hd, h⟩ := Option.bind_eq_some_iff.mp h
    obtain ⟨text, hcs, he⟩ := Option.bind_eq_some_iff.mp h
    cases he
    rw [List.flatMap_cons, escapeChar_of_escaped hd, ← ih hcs]
    rfl
  | case4 => cases h
  | case5 c cs hnil hcons hplain ih =>
    obtain ⟨text, hcs, rfl⟩ := Option.map_eq_some_iff.mp h
    have hbackslash := ne_backslash hnil hcons
    obtain ⟨hquote, hbreak⟩ : c ≠ '"' ∧ c ≠ '\n' := by simpa using hplain
    rw [List.flatMap_cons, escapeChar_plain hbackslash hquote hbreak, ← ih hcs]
    rfl

theorem unescape?_iff {cs s : List Char} : unescape? cs = some s ↔ cs = s.flatMap escapeChar :=
  ⟨eq_escape_of_unescape, fun h => h ▸ unescape?_escape s⟩

/-! ## The literal -/

/-- An escaped text and the closing quote are the rest of a literal. -/
theorem literalEnd_escape (s : List Char) : LiteralEnd '"' (s.flatMap escapeChar ++ ['"']) := by
  induction s with
  | nil => exact .close
  | cons c s ih =>
    rw [List.flatMap_cons, List.append_assoc]
    rcases escapeChar_cases c with ⟨d, hc, -, -⟩ | ⟨hc, hbackslash, hquote, hbreak⟩
    · rw [hc]
      exact .escaped ih
    · rw [hc]
      exact .plain hbackslash hquote (fun he => absurd he hbreak) ih

/-- The offset just past the literal whose opening quote stands at an offset of a text. -/
def stringEnd? (source : List Char) (start : Nat) : Option Nat :=
  match source.drop start with
  | [] => none
  | quote :: cs => (skipString? quote cs).map fun rest => source.length - rest.length

/-- An escaped text between double quotes. -/
def quoted (s : String) : List Char := '"' :: ((escape s).toList ++ ['"'])

theorem stringEnd?_quoted (s : String) (rest : List Char) :
    stringEnd? (quoted s ++ rest) 0 = some (quoted s).length := by
  have hskip : skipString? '"' ((escape s).toList ++ ['"'] ++ rest) = some rest := by
    rw [escape, String.toList_ofList]
    exact (literalEnd_escape s.toList).skips rfl rest
  rw [stringEnd?, List.drop_zero, quoted, List.cons_append]
  simp only [hskip, Option.map_some, Option.some.injEq, List.length_cons, List.length_append]
  omega

theorem break_not_mem_escape (s : String) : '\n' ∉ (escape s).toList := by
  rw [escape, String.toList_ofList, List.mem_flatMap]
  rintro ⟨c, -, hmem⟩
  rcases escapeChar_cases c with ⟨d, hc, -, hd⟩ | ⟨hc, -, -, hbreak⟩
  · rw [hc] at hmem
    simp [hd.symm] at hmem
  · rw [hc, List.mem_singleton] at hmem
    exact hbreak hmem.symm

theorem unescape?_eq_some_iff (s : String) (cs : List Char) :
    unescape? cs = some s.toList ↔ cs = (escape s).toList := by
  rw [escape, String.toList_ofList, unescape?_iff]

theorem escape_injective : Function.Injective escape := by
  intro s s' h
  have hs := (unescape?_eq_some_iff s _).mpr rfl
  have hs' := (unescape?_eq_some_iff s' _).mpr rfl
  rw [h, hs'] at hs
  exact String.toList_inj.mp (Option.some.inj hs).symm

/-- A text between double quotes is one literal whatever follows it, and it can be read back in one way. -/
theorem escape_one_literal :
    (∀ s : String, (escape s).toList =
      replaceChar '\n' ['\\', 'n'] (replaceChar '"' ['\\', '"'] (replaceChar '\\' ['\\', '\\'] s.toList))) ∧
    (∀ (s : String) (rest : List Char), stringEnd? (quoted s ++ rest) 0 = some (quoted s).length) ∧
    (∀ (s : String) (cs : List Char), unescape? cs = some s.toList ↔ cs = (escape s).toList) ∧
    Function.Injective escape ∧ ∀ s : String, '\n' ∉ (escape s).toList := by
  refine ⟨fun s => ?_, stringEnd?_quoted, unescape?_eq_some_iff, escape_injective, break_not_mem_escape⟩
  rw [escape, String.toList_ofList, flatMap_escapeChar]

end SchemaScaffold.Source
