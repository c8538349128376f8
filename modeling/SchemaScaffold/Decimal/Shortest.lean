import SchemaScaffold.Decimal.Binary64

/-!
The shortest decimal that reads back as a given double, and its layout. Of the decimals with the
fewest digits the nearest is taken, and the even one of two equally near. Numbers from `0.0001` up
to `10 ^ 16` are written positionally, with at least one decimal place; the others with an exponent
of at least two digits.
-/

namespace SchemaScaffold.Decimal

/-- The reals that round to `mantissa * 2 ^ exponent`, as bounds in quarters of the last unit; the
bounds belong to them when the mantissa is even. Below a power of two the gap is half as wide. -/
structure RoundingInterval where
  low : Nat
  high : Nat
  inclusive : Bool
  deriving Repr, DecidableEq

def RoundingInterval.of (mantissa : Nat) (exponent : Int) : RoundingInterval where
  low := 4 * mantissa - (if mantissa == twoTo 52 && -1074 < exponent then 1 else 2)
  high := 4 * mantissa + 2
  inclusive := mantissa % 2 == 0

/-- Whether `x` lies between the bounds, all three in the same unit. -/
def RoundingInterval.holds (interval : RoundingInterval) (scale x : Nat) : Bool :=
  let low := interval.low * scale
  let high := interval.high * scale
  (low < x || (interval.inclusive && low == x)) && (x < high || (interval.inclusive && x == high))

/-- The decimal with last place `10 ^ place` that reads back as the number, if there is one. -/
def onGrid? (mantissa : Nat) (exponent place : Int) : Option Nat :=
  let scale := twoTo exponent.toNat * tenTo (-place).toNat
  let unit := twoTo (-exponent).toNat * tenTo place.toNat
  let interval := RoundingInterval.of mantissa exponent
  let below := mantissa * scale / unit
  let reads (digits : Nat) := interval.holds scale (4 * digits * unit)
  let twice := 2 * mantissa * scale
  let middle := (2 * below + 1) * unit
  match reads below, reads (below + 1) with
  | true, true =>
    some (if twice < middle || (twice == middle && below % 2 == 0) then below else below + 1)
  | true, false => some below
  | false, true => some (below + 1)
  | false, false => none

/-- The number of digits before the point: the least power of ten above the number. -/
def magnitude (mantissa : Nat) (exponent : Int) : Int :=
  let guess := ((Nat.log2 mantissa + exponent) * 30103) / 100000 - 1
  let isAbove (power : Int) : Bool :=
    mantissa * twoTo exponent.toNat * tenTo (-power).toNat <
      tenTo power.toNat * twoTo (-exponent).toNat
  ((List.range 4).map fun (step : Nat) => guess + step).find? isAbove |>.getD (guess + 4)

/-- Moves the zeros at the end of the digits into the exponent. The number bounds their count. -/
def stripZeros : Nat → Nat → Int → Nat × Int
  | 0, digits, exponent => (digits, exponent)
  | count + 1, digits, exponent =>
    if digits % 10 == 0 then stripZeros count (digits / 10) (exponent + 1) else (digits, exponent)

/-- Digits and exponent of the shortest decimal for a positive number. Seventeen digits always
suffice. -/
def shortest (mantissa : Nat) (exponent : Int) : Nat × Int :=
  let size := magnitude mantissa exponent
  let found := (List.range 17).findSome? fun (n : Nat) =>
    let place := size - 1 - n
    (onGrid? mantissa exponent place).map fun digits => (digits, place)
  match found with
  | some (digits, place) => stripZeros 20 digits place
  | none => (mantissa, exponent)

def zeros (n : Int) : List Char := List.replicate n.toNat '0'

/-- Digits in positional notation; the point stands after `point` of them. -/
def positional (digits : List Char) (point : Int) : List Char :=
  if point ≤ 0 then '0' :: '.' :: zeros (-point) ++ digits
  else if digits.length ≤ point then digits ++ zeros (point - digits.length) ++ ['.', '0']
  else digits.take point.toNat ++ '.' :: digits.drop point.toNat

/-- Digits with one of them before the point, and the power of ten. -/
def scientific (digits : List Char) (power : Int) : List Char :=
  let fraction := if digits.length ≤ 1 then [] else '.' :: digits.drop 1
  let size := Nat.toDigits 10 power.natAbs
  let sign := if power < 0 then '-' else '+'
  digits.take 1 ++ fraction ++ 'e' :: sign :: zeros (2 - size.length) ++ size

/-- The text of a number. -/
def Binary64.text : Binary64 → List Char
  | .nan => "NaN".toList
  | .infinite negative => (if negative then "-Infinity" else "Infinity").toList
  | .finite negative mantissa exponent =>
    let sign := if negative then ['-'] else []
    if mantissa == 0 then sign ++ "0.0".toList
    else
      let (value, place) := shortest mantissa exponent
      let digits := Nat.toDigits 10 value
      let point := digits.length + place
      sign ++ (if -4 < point && point ≤ 16 then positional digits point
        else scientific digits (point - 1))

end SchemaScaffold.Decimal
