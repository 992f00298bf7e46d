import LiveTemplate.Number.Shortest

/-!
# Written forms of floating-point numbers

Both forms use the shortest digits that read back.  The plain form is always
positional and has no fraction for an integer.  The detailed form keeps a
fraction of at least one digit and turns to an exponent below `10 ^ -4` and
from `10 ^ 16` on.
-/

namespace LiveTemplate

namespace Decimal

/-- Zeros, as many as asked for. -/
def zeros (count : Nat) : String :=
  String.ofList (List.replicate count '0')

/-- The digits before and after the decimal point. -/
def split (decimal : Decimal) : String × String :=
  let digits := Nat.toDigits 10 decimal.digits
  if decimal.exponent ≥ 0 then
    (String.ofList digits ++ zeros decimal.exponent.toNat, "")
  else
    let places := (-decimal.exponent).toNat
    if places < digits.length then
      let whole := digits.length - places
      (String.ofList (digits.take whole), String.ofList (digits.drop whole))
    else
      ("0", zeros (places - digits.length) ++ String.ofList digits)

/-- Positional notation without a fraction for an integer. -/
def plain (decimal : Decimal) : String :=
  let (whole, fraction) := decimal.split
  if fraction.isEmpty then whole else whole ++ "." ++ fraction

/-- The exponent of the first digit. -/
def leading (decimal : Decimal) : Int :=
  decimal.exponent + (width decimal.digits : Int) - 1

/-- One digit before the point and an exponent. -/
def scientific (decimal : Decimal) : String :=
  let digits := Nat.toDigits 10 decimal.digits
  let fraction := digits.drop 1
  let mantissa :=
    if fraction.isEmpty then String.ofList (digits.take 1)
    else String.ofList (digits.take 1) ++ "." ++ String.ofList fraction
  mantissa ++ "e" ++ toString decimal.leading

/-- Positional with at least one place, or scientific outside the range in
which that stays short. -/
def detailed (decimal : Decimal) : String :=
  if decimal.digits ≠ 0 ∧ (decimal.leading < -4 ∨ decimal.leading ≥ 16) then
    decimal.scientific
  else
    let (whole, fraction) := decimal.split
    whole ++ "." ++ (if fraction.isEmpty then "0" else fraction)

end Decimal

namespace BinaryFormat

/-- Write a number with its sign, given the notation of its magnitude. -/
def write (format : BinaryFormat) (notate : Decimal → String) (bits : Nat) :
    String :=
  let signed (negative : Bool) (text : String) : String :=
    if negative then "-" ++ text else text
  match format.read bits with
  | .nan => "NaN"
  | .infinite negative => signed negative "inf"
  | .finite negative significand exponent =>
      signed negative (notate (Decimal.shortest format significand exponent))

end BinaryFormat

namespace Double

/-- The plain form of a number. -/
def plain (number : Double) : String :=
  BinaryFormat.double.write Decimal.plain number.bits.toNat

/-- The detailed form of a number. -/
def detailed (number : Double) : String :=
  BinaryFormat.double.write Decimal.detailed number.bits.toNat

end Double

/-- The detailed form of a single-precision number given by its bits. -/
def detailedSingle (bits : UInt32) : String :=
  BinaryFormat.single.write Decimal.detailed bits.toNat

end LiveTemplate
