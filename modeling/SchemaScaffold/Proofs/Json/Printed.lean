import SchemaScaffold.Json.Printer
import SchemaScaffold.Proofs.Json.Decorations
import SchemaScaffold.Proofs.Text.LineFeeds

/-!
Printed values in a file. No printed value has a carriage return, so a file with one is read as it was
written, and the line break at its end is none of the value.
-/

namespace SchemaScaffold.Json

open Text Decimal

/-! ## Carriage returns -/

theorem no_return_of_digits {base n : Nat} (hbase : 1 < base) (hten : base ≤ 10) : '\r' ∉ Nat.toDigits base n := by
  intro hmem
  have := Nat.isDigit_of_mem_toDigits (by omega) hten hmem
  exact absurd this (by decide)

theorem no_return_of_zeros (n : Int) : '\r' ∉ zeros n := by
  intro hmem
  exact absurd (List.eq_of_mem_replicate hmem) (by decide)

theorem no_return_of_positional {digits : List Char} (h : '\r' ∉ digits) (point : Int) :
    '\r' ∉ positional digits point := by
  unfold positional
  split
  · simp [h, no_return_of_zeros]
  · split
    · simp [h, no_return_of_zeros]
    · have htake : '\r' ∉ digits.take point.toNat := fun hmem => h (List.mem_of_mem_take hmem)
      have hdrop : '\r' ∉ digits.drop point.toNat := fun hmem => h (List.mem_of_mem_drop hmem)
      simp [htake, hdrop]

theorem no_return_of_scientific {digits : List Char} (h : '\r' ∉ digits) (power : Int) :
    '\r' ∉ scientific digits power := by
  have htake : '\r' ∉ digits.take 1 := fun hmem => h (List.mem_of_mem_take hmem)
  have hdrop : '\r' ∉ digits.drop 1 := fun hmem => h (List.mem_of_mem_drop hmem)
  have hsize : '\r' ∉ Nat.toDigits 10 power.natAbs := no_return_of_digits (by decide) (by decide)
  have hsign : '\r' ≠ (if power < 0 then '-' else '+') := by split <;> decide
  have hfraction : '\r' ∉ (if digits.length ≤ 1 then [] else '.' :: digits.drop 1) := by
    split
    · exact List.not_mem_nil
    · exact List.not_mem_cons_of_ne_of_not_mem (by decide) hdrop
  simp only [scientific, List.mem_append, List.mem_cons, not_or]
  exact ⟨⟨⟨htake, hfraction⟩, by decide, hsign, no_return_of_zeros _⟩, hsize⟩

theorem no_return_of_float (x : Binary64) : '\r' ∉ x.text := by
  have hsign (negative : Bool) : '\r' ∉ (if negative then ['-'] else []) := by
    cases negative <;> decide
  cases x with
  | nan => decide
  | infinite negative => cases negative <;> decide
  | finite negative mantissa exponent =>
    have hdigits : '\r' ∉ Nat.toDigits 10 (shortest mantissa exponent).1 :=
      no_return_of_digits (by decide) (by decide)
    unfold Binary64.text
    dsimp only
    split
    · exact fun hmem => (List.mem_append.mp hmem).elim (hsign negative) (by decide)
    · refine fun hmem => (List.mem_append.mp hmem).elim (hsign negative) ?_
      split
      · exact no_return_of_positional hdigits _
      · exact no_return_of_scientific hdigits _

theorem no_return_of_escape (n : Nat) : '\r' ∉ unicodeEscape n := by
  have hdigit (n : Nat) : '\r' ≠ hexDigit (n % 16) := by
    have hall : ∀ n : Fin 16, '\r' ≠ hexDigit n := by decide
    exact hall ⟨n % 16, Nat.mod_lt _ (by decide)⟩
  simp [unicodeEscape, hdigit]

theorem no_return_of_jsonChar (c : Char) : '\r' ∉ jsonChar c := by
  unfold jsonChar
  split
  iterate 7 decide
  · split
    · exact no_return_of_escape _
    · rename_i h
      rw [List.mem_singleton]
      rintro rfl
      exact h (by decide)

theorem no_return_of_unit (u : UInt16) : '\r' ∉ unitText u := by
  unfold unitText
  split
  · exact no_return_of_jsonChar _
  · exact no_return_of_escape _

theorem no_return_of_literal (units : List UInt16) : '\r' ∉ literalText units := by
  rw [literalText]
  simp only [List.mem_append, List.mem_cons, List.mem_flatMap, not_or, not_exists, not_and]
  exact ⟨⟨by decide, fun u _ => no_return_of_unit u⟩, by decide, List.not_mem_nil⟩

theorem no_return_of_lineBreak (level : Nat) : '\r' ∉ lineBreak level := by
  simp [lineBreak, List.mem_replicate]

mutual

theorem no_return_of_value (level : Nat) : ∀ v : Value, '\r' ∉ valueText level v
  | .null | .bool true | .bool false => by
    rw [valueText]
    decide
  | .integer n => by
    have hdigits : '\r' ∉ Nat.toDigits 10 n.natAbs := no_return_of_digits (by decide) (by decide)
    rw [valueText, integerText, List.mem_append, not_or]
    exact ⟨by split <;> decide, hdigits⟩
  | .float x => no_return_of_float x
  | .text units => no_return_of_literal units
  | .list [] => by simp [valueText]
  | .list (item :: items) => by
    simp [valueText, no_return_of_value (level + 1) item, no_return_of_items (level + 1) items,
      no_return_of_lineBreak]
  | .record [] => by simp [valueText]
  | .record ((k, v) :: entries) => by
    simp [valueText, no_return_of_value (level + 1) v, no_return_of_entries (level + 1) entries,
      no_return_of_lineBreak, no_return_of_literal]

theorem no_return_of_items (level : Nat) : ∀ items : List Value, '\r' ∉ itemsText level items
  | [] => by simp [itemsText]
  | item :: items => by
    simp [itemsText, no_return_of_value level item, no_return_of_items level items,
      no_return_of_lineBreak]

theorem no_return_of_entries (level : Nat) :
    ∀ entries : List (List UInt16 × Value), '\r' ∉ entriesText level entries
  | [] => by simp [entriesText]
  | (k, v) :: entries => by
    simp [entriesText, no_return_of_value level v, no_return_of_entries level entries,
      no_return_of_lineBreak, no_return_of_literal]

end

/-- The file of a printed value is read as it was written. -/
theorem withLineFeeds_render (v : Value) : withLineFeeds (render v ++ "\n") = render v ++ "\n" := by
  have hreturn : '\r' ∉ (render v ++ "\n").toList := by
    rw [String.toList_append, render, String.toList_ofList, List.mem_append, not_or]
    exact ⟨no_return_of_value 0 v, by decide⟩
  exact withLineFeeds_of_not_mem hreturn

/-- A value that is read from a text is read as well from the text with a line break at its end. -/
theorem parse_append_lineBreak {s : String} {v : Value} (h : parse s = .ok v) :
    parse (s ++ "\n") = .ok v := by
  have hspaced := (IsDocument.of_parse h).wellSpaced
  have htokens : tokens (s ++ "\n").toList = tokens s.toList := by
    rw [String.toList_append]
    exact tokens_append_blanks hspaced.chain hspaced.legible (by simp [Blanks, isJsonBlank])
  rw [parse_congr htokens, h]

end SchemaScaffold.Json
