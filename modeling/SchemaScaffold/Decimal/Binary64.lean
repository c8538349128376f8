/-!
Double-precision numbers, as values rather than bits, and the nearest one to a decimal. Rounding is
done on exact quotients of natural numbers; a tie goes to the even mantissa.
-/

namespace SchemaScaffold.Decimal

/-- A double-precision number. A finite one is `mantissa * 2 ^ exponent`: the mantissa lies below
`2 ^ 53`, and below `2 ^ 52` only under the least exponent, `-1074`. -/
inductive Binary64
  | nan
  | infinite (negative : Bool)
  | finite (negative : Bool) (mantissa : Nat) (exponent : Int)
  deriving Repr, DecidableEq

/-- A power of two. -/
def twoTo (n : Nat) : Nat := Nat.pow 2 n

/-- A power of ten. -/
def tenTo (n : Nat) : Nat := Nat.pow 10 n

/-- The natural number nearest to a quotient; halfway it is the even one. -/
def roundQuotient (num den : Nat) : Nat :=
  let below := num / den
  let rest := 2 * (num % den)
  if den < rest || (rest == den && below % 2 == 1) then below + 1 else below

/-- The power `10 ^ exponent` as a fraction. -/
def powerOfTen (exponent : Int) : Nat × Nat := (tenTo exponent.toNat, tenTo (-exponent).toNat)

/-- A positive fraction in units of `2 ^ exponent`, as a fraction again. -/
def inUnits (num den : Nat) (exponent : Int) : Nat × Nat :=
  (num * twoTo (-exponent).toNat, den * twoTo exponent.toNat)

/-- The exponent under which a positive fraction rounds to a mantissa of at most 53 bits. -/
def exponentOf (num den : Nat) : Int :=
  let least := (Nat.log2 num : Int) - Nat.log2 den - 53
  let (n, d) := inUnits num den least
  max (-1074) (if n / d < twoTo 53 then least else least + 1)

/-- The number nearest to a positive fraction. -/
def nearest (negative : Bool) (num den : Nat) : Binary64 :=
  let exponent := exponentOf num den
  let (n, d) := inUnits num den exponent
  let rounded := roundQuotient n d
  let (mantissa, exponent) :=
    if rounded == twoTo 53 then (twoTo 52, exponent + 1) else (rounded, exponent)
  if 971 < exponent then .infinite negative else .finite negative mantissa exponent

/-- The number nearest to `digits * 10 ^ exponent`. Powers of ten far outside the range are decided
by their size alone. -/
def Binary64.ofDecimal (negative : Bool) (digits : Nat) (exponent : Int) : Binary64 :=
  if digits == 0 then .finite negative 0 (-1074)
  else
    let size := (Nat.toDigits 10 digits).length + exponent
    if 310 < size then .infinite negative
    else if size < -330 then .finite negative 0 (-1074)
    else
      let (n, d) := powerOfTen exponent
      nearest negative (digits * n) d

end SchemaScaffold.Decimal
