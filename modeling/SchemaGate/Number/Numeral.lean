import SchemaGate.Number.Basic

/-!
# Numerals

A numeral is a number as it is spelled: a sign, digits before and after the point
and an exponent. It is read in one of two ways.

`Numeral.nearest?` is the exact value, rounded once. `Numeral.value?` is the quick
reading that documents get. It is an exact integer where the numeral is one and
fits. Otherwise it keeps as many leading digits as fit in 64 bits, rounds them, and
multiplies or divides by a rounded power of ten, so its last bit may differ from
the exact reading. A value beyond the largest finite number is no value.
-/

namespace SchemaGate

/-- A number as it is spelled in decimal; digits are naturals below ten. -/
structure Numeral where
  /-- Whether a minus sign stands in front. -/
  negative : Bool
  /-- The digits before the point. -/
  whole : List Nat
  /-- The digits after the point; none if there is no point. -/
  fraction : List Nat
  /-- The exponent, if one is written: whether it is negative, and its digits. -/
  exponent : Option (Bool × List Nat)
  deriving DecidableEq, Repr

namespace Numeral

/-- The natural that digits spell. -/
def natOf (digits : List Nat) : Nat := digits.foldl (fun n d => n * 10 + d) 0

/-- The largest natural of 64 bits. -/
def largest : Nat := UInt64.size - 1

/-- Extend a natural by digits while it fits in 64 bits; also how many digits are left over. -/
def extend (n : Nat) : List Nat → Nat × Nat
  | [] => (n, 0)
  | d :: rest => if n * 10 + d ≤ largest then extend (n * 10 + d) rest else (n, rest.length + 1)

/-- The written exponent as an integer; zero if none is written. -/
def power (numeral : Numeral) : Int :=
  match numeral.exponent with
  | none => 0
  | some (negative, digits) => if negative then -(natOf digits : Int) else natOf digits

/-- The largest exponent whose power of ten is a finite 64-bit number. -/
def largestPower : Nat := 308

/-- The 64-bit number nearest to a power of ten. -/
def powerOfTen? (n : Nat) : Option (Binary binary64) := Binary.ofNat? (Nat.pow 10 n)

/-- Scale a float by a power of ten in steps of at most `10 ^ 308`.
Three steps down take every 64-bit significand to zero. -/
def scale? : Nat → Binary binary64 → Int → Option (Binary binary64)
  | steps, x, power =>
    if power.natAbs ≤ largestPower then do
      let p ← powerOfTen? power.natAbs
      if 0 ≤ power then x.mul? p else x.div? p
    else if x.isZero then some x
    else if 0 ≤ power then none
    else match steps with
      | 0 => some (.zero false)
      | steps + 1 => do
        let p ← powerOfTen? largestPower
        let y ← x.div? p
        scale? steps y (power + largestPower)

/-- The float `± significand * 10 ^ power`, by the quick reading. -/
def float? (negative : Bool) (significand : Nat) (power : Int) : Option Number := do
  let x ← scale? 3 (← Binary.ofNat? significand) power
  return .float (if negative then x.neg else x)

/-- An integer that fits, else the float of its leading digits. -/
def integer? (negative : Bool) (significand : Nat) : Option Number :=
  if negative then
    if significand = 0 ∨ UInt64.size / 2 < significand then float? true significand 0
    else some (.int (-significand))
  else some (.int significand)

/-- The largest exponent that is counted; a larger one is beyond every significand. -/
def largestExponent : Nat := UInt32.size / 2 - 1

/-- The quick reading of a numeral; none beyond the largest finite number. -/
def value? (numeral : Numeral) : Option Number :=
  let (head, dropped) := extend 0 numeral.whole
  let (significand, unused) := extend head numeral.fraction
  let shift : Int := (dropped : Int) - ((numeral.fraction.length : Int) - unused)
  match numeral.exponent with
  | none =>
    if numeral.fraction.isEmpty && dropped == 0 then integer? numeral.negative significand
    else float? numeral.negative significand shift
  | some (negative, digits) =>
    if natOf digits ≤ largestExponent then
      float? numeral.negative significand (shift + numeral.power)
    else if significand = 0 ∨ negative then some (.float (.zero numeral.negative))
    else none

/-- The number of a format nearest to the exact value of a numeral; none beyond the largest.
Exponents far outside the range of the format are decided by their size. -/
def nearest? {f : Format} (numeral : Numeral) : Option (Binary f) :=
  let digits := natOf (numeral.whole ++ numeral.fraction)
  let power := numeral.power - numeral.fraction.length
  let size := power + (numeral.whole.length + numeral.fraction.length : Nat)
  if digits = 0 ∨ size < -400 then some (.zero numeral.negative)
  else if 2000 < power then none
  else
    Binary.ofRatio? numeral.negative (digits * Nat.pow 10 power.toNat)
      (Nat.pow 10 (-power).toNat)

end Numeral

end SchemaGate
