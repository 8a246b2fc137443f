/-!
# Doubles by their bits

A `Double` is an IEEE 754 double kept as its 64 bits, so equality is equality
of bits and the two zeros differ. Every operation here is exact arithmetic on
natural numbers followed by one rounding to nearest, ties to even.

`Double.ofDecimal?` is the reading of a decimal literal: the significand is
rounded first and then scaled once by a rounded power of ten. Literals with at
most fifteen digits and a small exponent are therefore read exactly; longer
ones may differ from the nearest double by one unit in the last place.
-/

namespace DomainLang

/-- An IEEE 754 double, by its bits. -/
structure Double where
  bits : UInt64
  deriving DecidableEq, Repr, Inhabited

namespace Double

/-- The weight of the leading bit of a mantissa, `2 ^ 52`. -/
def leadingBit : Nat := 0x10000000000000

/-- The weight of the sign bit, `2 ^ 63`. -/
def signBit : Nat := 0x8000000000000000

/-- The bits of positive infinity, which every finite magnitude stays below. -/
def infinityBits : Nat := 2047 * leadingBit

/-- Whether the sign bit is set. -/
def isNegative (double : Double) : Bool :=
  signBit ≤ double.bits.toNat

/-- The bits without the sign. -/
def magnitude (double : Double) : Nat :=
  double.bits.toNat % signBit

/-- Whether the double is a number: neither an infinity nor a NaN. -/
def isFinite (double : Double) : Bool :=
  double.magnitude < infinityBits

/-- Whether the double is one of the two zeros. -/
def isZero (double : Double) : Bool :=
  double.magnitude = 0

/-- The integer factor of the value `mantissa * 2 ^ exponent`. -/
def mantissa (double : Double) : Nat :=
  if double.magnitude < leadingBit then double.magnitude
  else double.magnitude % leadingBit + leadingBit

/-- The power of two of the value `mantissa * 2 ^ exponent`. -/
def exponent (double : Double) : Int :=
  (max (double.magnitude / leadingBit) 1 : Nat) - 1075

/-- The magnitude of a finite double as numerator and denominator. -/
def ratio (double : Double) : Nat × Nat :=
  (double.mantissa * Nat.pow 2 double.exponent.toNat, Nat.pow 2 (-double.exponent).toNat)

/-- The same double with the sign bit flipped. -/
def negate (double : Double) : Double :=
  ⟨double.bits ^^^ 0x8000000000000000⟩

/-- The quotient rounded to the nearest integer, a tie to the even neighbour. -/
def roundedQuotient (numerator denominator : Nat) : Nat :=
  let quotient := numerator / denominator
  let remainder := numerator % denominator
  if 2 * remainder < denominator then quotient
  else if denominator < 2 * remainder then quotient + 1
  else quotient + quotient % 2

/-- The bits of `numerator / denominator` rounded on the grid `2 ^ exponent`,
where the quotient by that grid does not exceed `2 ^ 53`. -/
def gridBits (numerator denominator : Nat) (exponent : Int) : Nat :=
  let steps := roundedQuotient (numerator * Nat.pow 2 (-exponent).toNat)
    (denominator * Nat.pow 2 exponent.toNat)
  min infinityBits ((exponent + 1074).toNat * leadingBit + steps)

/-- The double nearest to a non-negative ratio, infinity when it is too large. -/
def ofRatio (numerator denominator : Nat) : Double :=
  if numerator = 0 then ⟨0⟩
  else
    let coarse : Int := (numerator.log2 : Int) - denominator.log2 - 52
    let fits := denominator * Nat.pow 2 (52 + coarse).toNat ≤
      numerator * Nat.pow 2 (-(52 + coarse)).toNat
    let grid := if fits then coarse else coarse - 1
    ⟨UInt64.ofNat (gridBits numerator denominator (max (-1074) grid))⟩

/-- The double nearest to a natural number. -/
def ofNat (value : Nat) : Double :=
  ofRatio value 1

/-- The product of the magnitudes, rounded once. -/
def multiply (left right : Double) : Double :=
  ofRatio (left.ratio.1 * right.ratio.1) (left.ratio.2 * right.ratio.2)

/-- The quotient of the magnitudes, rounded once. -/
def divide (left right : Double) : Double :=
  ofRatio (left.ratio.1 * right.ratio.2) (left.ratio.2 * right.ratio.1)

/-- The largest power of ten that is a double. -/
def maxPower : Nat := 308

/-- Divide by `10 ^ places` in steps of at most `10 ^ maxPower`, each rounded.
A magnitude below `2 ^ 64` vanishes within two full steps, so `steps` of three
never runs out before the value is zero. -/
def scaleDown : (steps : Nat) → Double → (places : Nat) → Double
  | 0, value, _ => value
  | steps + 1, value, places =>
    if places ≤ maxPower then value.divide (ofNat (Nat.pow 10 places))
    else if value.isZero then value
    else scaleDown steps (value.divide (ofNat (Nat.pow 10 maxPower))) (places - maxPower)

/-- The double written as `significand` times ten to the `power`, or nothing
when it exceeds the largest double. -/
def ofDecimal? (significand : Nat) (power : Int) : Option Double :=
  let value := ofNat significand
  if power < 0 then some (scaleDown 3 value (-power).toNat)
  else if power.toNat ≤ maxPower then
    let scaled := value.multiply (ofNat (Nat.pow 10 power.toNat))
    if scaled.isFinite then some scaled else none
  else if value.isZero then some value
  else none

/-- The double nearest to an integer, the sign kept. -/
def ofInt (value : Int) : Double :=
  if value < 0 then (ofNat value.natAbs).negate else ofNat value.natAbs

end Double
end DomainLang
