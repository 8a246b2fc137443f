import DomainLang.Number.Double

/-!
# Shortest decimal text of a double

`Double.shortest` selects the fewest decimal digits that read back as the
double, the closest such digits when there are several, and of two equally close
ones the one that a `Tie` names. `Double.text` writes them positionally: never
an exponent, no fraction for an integer, a sign in front of every negative
double, zero included, and the larger of two equally close decimals.
-/

namespace DomainLang

/-- The value `digits * 10 ^ power`. -/
structure Decimal where
  digits : Nat
  power : Int
  deriving DecidableEq, Repr

namespace Decimal

/-- Positional notation without a superfluous point or zero. -/
def positional (decimal : Decimal) : String :=
  if 0 ≤ decimal.power then
    toString decimal.digits ++ String.ofList (List.replicate decimal.power.toNat '0')
  else
    let places := (-decimal.power).toNat
    let digits := (toString decimal.digits).toList
    let padded := List.replicate (places + 1 - digits.length) '0' ++ digits
    let whole := padded.take (padded.length - places)
    let fraction := padded.drop (padded.length - places)
    String.ofList (whole ++ '.' :: fraction)

end Decimal

/-- Which of two equally close decimals is taken. -/
inductive Tie where
  | larger
  | even
  deriving DecidableEq, Repr

/-- Whether the upper one of two equally close neighbours is taken, the lower one
ending in the digits `below`. -/
def Tie.takesUpper (tie : Tie) (below : Nat) : Bool :=
  match tie with
  | larger => true
  | even => below % 2 = 1

namespace Double

/-- The closed or open interval of reals that round to a positive finite double,
and the double itself, all as multiples of `2 ^ (exponent - 2)`. -/
structure Rounding where
  low : Nat
  value : Nat
  high : Nat
  closed : Bool

/-- The reals that round to the magnitude of `double`: half a unit on either
side, a quarter below a power of two, the ends included when the mantissa is even. -/
def rounding (double : Double) : Rounding where
  low := 4 * double.mantissa -
    (if double.mantissa = leadingBit ∧ 2 * leadingBit ≤ double.magnitude then 1 else 2)
  value := 4 * double.mantissa
  high := 4 * double.mantissa + 2
  closed := double.mantissa % 2 = 0

/-- Whether `point` lies in the interval, all scaled by the same `unit`. -/
def Rounding.contains (interval : Rounding) (unit point : Nat) : Bool :=
  if interval.closed then interval.low * unit ≤ point && point ≤ interval.high * unit
  else interval.low * unit < point && point < interval.high * unit

/-- The better neighbour of the value on the grid `10 ^ power`, if one rounds to
the double: the closer one, and on a tie the one that `tie` names. -/
def onGrid? (tie : Tie) (double : Double) (power : Int) : Option Decimal :=
  let interval := double.rounding
  let binary := double.exponent - 2
  let unit := Nat.pow 2 binary.toNat * Nat.pow 10 (-power).toNat
  let grid := Nat.pow 10 power.toNat * Nat.pow 2 (-binary).toNat
  let below := interval.value * unit / grid
  let lower := interval.contains unit (below * grid)
  let upper := interval.contains unit ((below + 1) * grid)
  let middle := (2 * below + 1) * grid
  let doubled := 2 * (interval.value * unit)
  let prefersUpper := middle < doubled || (middle = doubled && tie.takesUpper below)
  if upper && (prefersUpper || !lower) then some ⟨below + 1, power⟩
  else if lower && 0 < below then some ⟨below, power⟩
  else none

/-- Try the grids of `power`, `power - 1`, … and take the first with a hit. -/
def firstGrid (tie : Tie) (double : Double) : (tries : Nat) → (power : Int) → Decimal
  | 0, power => ⟨double.mantissa, power⟩
  | tries + 1, power =>
    match double.onGrid? tie power with
    | some decimal => decimal
    | none => firstGrid tie double tries (power - 1)

/-- The decimal exponent of the leading digit of a positive ratio. -/
def leadingPower (numerator denominator : Nat) : Int :=
  if denominator ≤ numerator then ((toString (numerator / denominator)).length : Int) - 1
  else -((toString ((denominator - 1) / numerator)).length : Int)

/-- The fewest digits that read back as the magnitude of a positive finite double. -/
def shortest (tie : Tie) (double : Double) : Decimal :=
  double.firstGrid tie 20 (leadingPower double.ratio.1 double.ratio.2 + 1)

/-- The text of a double, always positional. -/
def text (double : Double) : String :=
  let sign := if double.isNegative then "-" else ""
  if !double.isFinite then
    if double.magnitude = infinityBits then sign ++ "inf" else "NaN"
  else if double.isZero then sign ++ "0"
  else sign ++ (double.shortest .larger).positional

/-- The sixteen hexadecimal digits of the bits. -/
def hexadecimal (double : Double) : String :=
  let digits := Nat.toDigits 16 double.bits.toNat
  String.ofList (List.replicate (16 - digits.length) '0' ++ digits)

end Double
end DomainLang
