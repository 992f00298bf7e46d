import LiveTemplate.Number.Binary

/-!
# The fewest digits that read back

`Decimal.shortest` finds the decimal with the fewest digits among those that
round to a given binary number, and the nearest of these.  For one digit, two
digits and so on it looks at the two neighbours of the number on the decimal
grid with that many digits; a grid that has a point in the rounding interval
has one of the two neighbours in it.
-/

namespace LiveTemplate

/-- The number `digits * 10 ^ exponent`. -/
structure Decimal where
  digits : Nat
  exponent : Int
  deriving DecidableEq, Repr

namespace Decimal

/-- How many decimal digits a natural number is written with. -/
def width (number : Nat) : Nat :=
  (Nat.toDigits 10 number).length

/-- Drop the zeros at the end of the digits, at most `fuel` of them. -/
def trim : Nat → Decimal → Decimal
  | 0, decimal => decimal
  | fuel + 1, decimal =>
      if decimal.digits ≠ 0 ∧ decimal.digits % 10 = 0 then
        trim fuel ⟨decimal.digits / 10, decimal.exponent + 1⟩
      else decimal

/-- The real numbers that round to a binary number, as multiples `low`, `high`
of `2 ^ exponent` around the number itself, `middle`. -/
structure Interval where
  low : Nat
  middle : Nat
  high : Nat
  exponent : Int
  closed : Bool

/-- The lower half of the interval is narrower just above a power of two. -/
def roundingInterval (format : BinaryFormat) (significand : Nat)
    (exponent : Int) : Interval :=
  let narrow :=
    significand = twoTo format.fractionBits ∧ exponent ≠ format.leastExponent
  { low := 4 * significand - (if narrow then 1 else 2)
    middle := 4 * significand
    high := 4 * significand + 2
    exponent := exponent - 2
    closed := significand % 2 == 0 }

/-- The neighbour of the number on the grid of multiples of `10 ^ unit` that
lies in the interval, the nearer of two, and the upper one of a tie. -/
def gridPoint? (interval : Interval) (unit : Int) : Option Decimal :=
  let gridScale := tenTo unit.toNat * twoTo (-interval.exponent).toNat
  let realScale := twoTo interval.exponent.toNat * tenTo (-unit).toNat
  let low := interval.low * realScale
  let middle := interval.middle * realScale
  let high := interval.high * realScale
  let inside (point : Nat) : Bool :=
    if interval.closed then low ≤ point && point ≤ high
    else low < point && point < high
  let below := middle / gridScale
  let above := below + 1
  let belowInside := inside (below * gridScale)
  let aboveInside := inside (above * gridScale)
  if below * gridScale = middle then some ⟨below, unit⟩
  else if belowInside && aboveInside then
    if middle - below * gridScale < above * gridScale - middle then
      some ⟨below, unit⟩
    else some ⟨above, unit⟩
  else if belowInside then some ⟨below, unit⟩
  else if aboveInside then some ⟨above, unit⟩
  else none

/-- The exponent of the first decimal digit of `significand * 2 ^ exponent`. -/
def leadingExponent (significand : Nat) (exponent : Int) : Int :=
  let numerator := significand * twoTo exponent.toNat
  let denominator := twoTo (-exponent).toNat
  let estimate : Int := (width numerator : Int) - width denominator
  let reached :=
    denominator * tenTo estimate.toNat ≤ numerator * tenTo (-estimate).toNat
  if reached then estimate else estimate - 1

/-- Try finer and finer grids, `fuel` of them. -/
def search (interval : Interval) : Nat → Int → Option Decimal
  | 0, _ => none
  | fuel + 1, unit =>
      match gridPoint? interval unit with
      | some decimal => some decimal
      | none => search interval fuel (unit - 1)

/-- The shortest decimal for the binary number `significand * 2 ^ exponent`.
Seventeen digits are enough for every format up to double precision. -/
def shortest (format : BinaryFormat) (significand : Nat)
    (exponent : Int) : Decimal :=
  if significand = 0 then ⟨0, 0⟩
  else
    let interval := roundingInterval format significand exponent
    let leading := leadingExponent significand exponent
    let found := (search interval 17 leading).getD ⟨significand, exponent⟩
    trim (width found.digits) found

end Decimal

end LiveTemplate
