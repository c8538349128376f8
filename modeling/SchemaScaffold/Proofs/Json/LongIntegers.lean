import SchemaScaffold.Proofs.Json.Lexemes
import Mathlib.Data.List.TakeWhile

/-!
Integers of many digits. They are JSON like any other, but past 4300 digits they are not read.
-/

namespace SchemaScaffold.Json

/-- The integer of so many ones. -/
def ones (digits : Nat) : NumberText := { negative := false, whole := List.replicate digits '1' }

theorem ones_writes (n : Nat) :
    (Token.number (ones (n + 1))).Writes (List.replicate (n + 1) '1') := by
  have hdigits : ∀ c ∈ List.replicate n '1', Char.isDigit c = true := by
    intro c hc
    rw [List.eq_of_mem_replicate hc]
    decide
  have htake : (List.replicate n '1').takeWhile Char.isDigit = List.replicate n '1' :=
    List.takeWhile_eq_self_iff.mpr hdigits
  have hdrop : (List.replicate n '1').dropWhile Char.isDigit = [] :=
    List.dropWhile_eq_nil_iff.mpr hdigits
  have hwhole : whole? ('1' :: List.replicate n '1') = some (List.replicate (n + 1) '1', []) := by
    rw [whole?, htake, hdrop]
    · rfl
    · decide
  show (whole? ('1' :: List.replicate n '1') >>= _) = _
  rw [hwhole]
  rfl

theorem ones_value {n : Nat} (hlong : 4300 < n) : (ones n).value = .error .integerTooLong := by
  have hlength : (ones n).whole.length = n := List.length_replicate
  have hinteger : (ones n).isInteger = true := rfl
  rw [NumberText.value, if_pos hinteger, if_pos (by omega)]

end SchemaScaffold.Json
