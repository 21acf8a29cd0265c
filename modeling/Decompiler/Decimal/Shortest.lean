/-!
The shortest decimal number that a binary floating-point format reads back as a given value, in exact
arithmetic on natural numbers.
-/

namespace Decompiler

/-- A decimal value `digits * 10 ^ exponent`. -/
structure Decimal where
  digits : Nat
  exponent : Int
  deriving DecidableEq

namespace Decimal

/-- A positive binary value `mantissa * 2 ^ exponent`. Below it the spacing of the format is the spacing
above it, or half of that where the value starts a binade. -/
structure Binary where
  mantissa : Nat
  exponent : Int
  startsBinade : Bool

/-- A value with the ends of the interval of reals that round to it, all three over one denominator.
The ends belong to the interval when the mantissa is even. -/
structure Interval where
  low : Nat
  value : Nat
  high : Nat
  denominator : Nat
  closed : Bool

def Binary.interval (x : Binary) : Interval :=
  let scale := Nat.pow 2 x.exponent.toNat
  let below := if x.startsBinade then 1 else 2
  { low := (4 * x.mantissa - below) * scale
    value := 4 * x.mantissa * scale
    high := (4 * x.mantissa + 2) * scale
    denominator := 4 * Nat.pow 2 (-x.exponent).toNat
    closed := x.mantissa % 2 = 0 }

/-- The point `digits * 10 ^ exponent` lies in the interval. -/
def Interval.holds (i : Interval) (point : Decimal) : Bool :=
  let scaled := point.digits * Nat.pow 10 point.exponent.toNat * i.denominator
  let unit := Nat.pow 10 (-point.exponent).toNat
  if i.closed then i.low * unit ≤ scaled && scaled ≤ i.high * unit
  else i.low * unit < scaled && scaled < i.high * unit

/-- The exponent of the leading decimal digit of the value. -/
def Interval.leadingExponent (i : Interval) : Int :=
  if i.denominator ≤ i.value then
    (Nat.toDigits 10 (i.value / i.denominator)).length - 1
  else
    -((Nat.toDigits 10 ((i.denominator - 1) / i.value)).length : Int)

/-- The neighbour of the value on the grid of multiples of `10 ^ exponent` that lies in the interval,
the nearer of two, and the upper one when both are equally near. -/
def Interval.onGrid? (i : Interval) (exponent : Int) : Option Decimal :=
  let numerator := i.value * Nat.pow 10 (-exponent).toNat
  let divisor := i.denominator * Nat.pow 10 exponent.toNat
  let lower : Decimal := ⟨numerator / divisor, exponent⟩
  let upper : Decimal := ⟨numerator / divisor + 1, exponent⟩
  let nearer := if 2 * (numerator % divisor) < divisor then lower else upper
  match i.holds lower, i.holds upper with
  | true, true => some nearer
  | true, false => some lower
  | false, true => some upper
  | false, false => none

/-- Drops the trailing zeros of the digits. The fuel bounds their number. -/
def trim : Nat → Decimal → Decimal
  | 0, point => point
  | fuel + 1, point =>
    if point.digits ≠ 0 ∧ point.digits % 10 = 0 then
      trim fuel ⟨point.digits / 10, point.exponent + 1⟩
    else point

/-- The first grid with a point in the interval gives the shortest digits. Formats of at most 53 bits
need at most 17 of them. -/
def Binary.shortest (x : Binary) : Decimal :=
  let i := x.interval
  let lead := i.leadingExponent
  let found := (List.range 17).findSome? fun (places : Nat) => i.onGrid? (lead - places)
  (found.getD ⟨0, 0⟩).trim 20

end Decimal

end Decompiler
