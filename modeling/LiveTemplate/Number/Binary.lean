/-!
# Binary floating-point numbers

A floating-point number is kept as its bit pattern.  `BinaryFormat.read` takes
a pattern apart into a sign, an integral significand and a power of two, so
that everything printed or compared later is exact integer arithmetic.
-/

namespace LiveTemplate

def twoTo (exponent : Nat) : Nat := Nat.pow 2 exponent

def tenTo (exponent : Nat) : Nat := Nat.pow 10 exponent

/-- The widths of the fields of an interchange format. -/
structure BinaryFormat where
  fractionBits : Nat
  exponentBits : Nat
  deriving DecidableEq, Repr

/-- What a bit pattern stands for: `significand * 2 ^ exponent` with a sign. -/
inductive BinaryReading where
  | finite (negative : Bool) (significand : Nat) (exponent : Int)
  | infinite (negative : Bool)
  | nan
  deriving DecidableEq, Repr

namespace BinaryFormat

/-- The format of double precision. -/
def double : BinaryFormat := ⟨52, 11⟩

/-- The format of single precision. -/
def single : BinaryFormat := ⟨23, 8⟩

/-- The least power of two a significand is scaled by. -/
def leastExponent (format : BinaryFormat) : Int :=
  2 - (twoTo (format.exponentBits - 1) : Nat) - format.fractionBits

def read (format : BinaryFormat) (bits : Nat) : BinaryReading :=
  let fraction := bits % twoTo format.fractionBits
  let scale := bits / twoTo format.fractionBits % twoTo format.exponentBits
  let negative :=
    bits / twoTo (format.fractionBits + format.exponentBits) % 2 == 1
  if scale = twoTo format.exponentBits - 1 then
    if fraction = 0 then .infinite negative else .nan
  else if scale = 0 then
    .finite negative fraction format.leastExponent
  else
    .finite negative (twoTo format.fractionBits + fraction)
      (format.leastExponent + (scale - 1 : Nat))

end BinaryFormat

/-- A double-precision number, told apart from others by its bits. -/
structure Double where
  bits : UInt64
  deriving DecidableEq, Repr, Inhabited

namespace Double

def read (number : Double) : BinaryReading :=
  BinaryFormat.double.read number.bits.toNat

/-- Numeric equality: the two zeros agree and a NaN differs from itself. -/
def agrees (left right : Double) : Bool :=
  match left.read, right.read with
  | .nan, _ => false
  | _, .nan => false
  | .finite _ 0 _, .finite _ 0 _ => true
  | _, _ => left.bits == right.bits

/-- The integer a number is equal to, if there is one. -/
def integer? (number : Double) : Option Int :=
  match number.read with
  | .finite negative significand exponent =>
      let signed (magnitude : Nat) : Int :=
        if negative then -(magnitude : Int) else magnitude
      if exponent ≥ 0 then
        some (signed (significand * twoTo exponent.toNat))
      else if significand % twoTo (-exponent).toNat = 0 then
        some (signed (significand / twoTo (-exponent).toNat))
      else none
  | .infinite _ => none
  | .nan => none

end Double

end LiveTemplate
