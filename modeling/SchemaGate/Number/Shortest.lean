import SchemaGate.Number.Binary

/-!
# Shortest decimal digits

The shortest digits of a number are the fewest decimal digits that read back as
that number; of several choices with that many digits, the nearest. The reals
that read back as a number form an interval around it, whose ends belong to it
exactly when the significand is even. A grid of decimals with a given last place
has at most two points beside the number, so the search goes from coarse grids to
fine ones and looks at these two, in exact arithmetic on naturals.
-/

namespace SchemaGate

/-- `n` scaled up by a power of ten; a negative power leaves it as it is. -/
def scaleTen (n : Nat) (power : Int) : Nat := n * Nat.pow 10 power.toNat

/-- How many decimal digits a natural has; zero has one. -/
def digitCount (n : Nat) : Nat := (Nat.toDigits 10 n).length

/-- The largest power of ten that is at most a positive ratio. -/
def leadingDigitPlace (num den : Nat) : Int :=
  if den ≤ num then (digitCount (num / den) : Int) - 1
  else -(digitCount ((den + num - 1) / num - 1) : Int)

/-- The digits of a positive decimal, without trailing zeros, and its leading place. -/
structure DecimalDigits where
  /-- The significant digits. -/
  digits : List Char
  /-- The power of ten of the first digit. -/
  leading : Int
  deriving DecidableEq, Repr

namespace DecimalDigits

/-- The digits of `coefficient * 10 ^ place`. -/
def ofScaled (coefficient : Nat) (place : Int) : DecimalDigits :=
  let digits := Nat.toDigits 10 coefficient
  ⟨(digits.reverse.dropWhile (· == '0')).reverse, place + digits.length - 1⟩

end DecimalDigits

/-- The reals that round to a positive number, between two ratios over one denominator. -/
structure RoundingInterval where
  /-- The numerator of the lower end. -/
  low : Nat
  /-- The numerator of the number itself. -/
  centre : Nat
  /-- The numerator of the upper end. -/
  high : Nat
  /-- The common denominator. -/
  den : Nat
  /-- Whether the ends round to the number too. -/
  closed : Bool

namespace RoundingInterval

/-- The interval of a number: half a place to each side, a quarter below a power of two. -/
def ofBinary {f : Format} (x : Binary f) : RoundingInterval :=
  let narrow := x.significand == Nat.pow 2 (f.precision - 1) && f.lowest < x.exponent
  let quarters := x.exponent - 2
  { low := scaleTwo (4 * x.significand - if narrow then 1 else 2) quarters
    centre := scaleTwo (4 * x.significand) quarters
    high := scaleTwo (4 * x.significand + 2) quarters
    den := scaleTwo 1 (-quarters)
    closed := x.significand % 2 == 0 }

/-- Whether `coefficient * 10 ^ place` lies in the interval. -/
def holds (i : RoundingInterval) (place : Int) (coefficient : Nat) : Bool :=
  let point := scaleTen (coefficient * i.den) place
  let low := scaleTen i.low (-place)
  let high := scaleTen i.high (-place)
  if i.closed then low ≤ point && point ≤ high else low < point && point < high

/-- The nearest point of the interval on the grid of multiples of `10 ^ place`. -/
def nearestOnGrid? (i : RoundingInterval) (place : Int) : Option Nat :=
  let num := scaleTen i.centre (-place)
  let den := scaleTen i.den place
  let nearest := roundDiv num den
  let below := num / den
  let other := if nearest = below then below + 1 else below
  if i.holds place nearest then some nearest
  else if i.holds place other then some other
  else none

/-- The fewest digits in the interval; seventeen digits serve every number of 53 bits. -/
def shortest (i : RoundingInterval) : DecimalDigits :=
  let leading := leadingDigitPlace i.centre i.den
  let found := (List.range 17).findSome? fun (n : Nat) =>
    let place := leading - n
    (i.nearestOnGrid? place).map fun coefficient => DecimalDigits.ofScaled coefficient place
  found.getD (DecimalDigits.ofScaled i.centre 0)

end RoundingInterval

/-- The shortest digits of a number other than zero, without its sign. -/
def Binary.shortest {f : Format} (x : Binary f) : DecimalDigits :=
  (RoundingInterval.ofBinary x).shortest

end SchemaGate
