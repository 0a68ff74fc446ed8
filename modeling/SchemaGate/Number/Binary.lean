/-!
# Binary floating point numbers

A format fixes the width of a significand and the range of exponents; a finite
number of a format is a sign, a significand and the exponent of its last place.
Every operation computes an exact ratio of naturals and rounds it once, to the
nearest number of the format with ties to the even significand, and has no
result where the rounded number would lie beyond the largest finite one.
-/

namespace SchemaGate

/-- The natural nearest to `num / den`; a half goes to the even neighbour. -/
def roundDiv (num den : Nat) : Nat :=
  let quotient := num / den
  let twice := 2 * (num % den)
  if twice < den then quotient
  else if den < twice then quotient + 1
  else quotient + quotient % 2

/-- `n` scaled up by a power of two; a negative power leaves it as it is. -/
def scaleTwo (n : Nat) (power : Int) : Nat := n * Nat.pow 2 power.toNat

/-- A floating point format: bits of a significand and exponents of its last place. -/
structure Format where
  /-- Bits of a full significand. -/
  precision : Nat
  /-- The exponent of the last place of the smallest numbers. -/
  lowest : Int
  /-- The exponent of the last place of the largest finite numbers. -/
  highest : Int
  /-- The range of exponents is not empty. -/
  lowest_le : lowest ≤ highest

/-- The 64-bit format: 53 bits, the smallest number is `2 ^ (-1074)`. -/
def binary64 : Format := ⟨53, -1074, 971, by decide⟩

/-- The 32-bit format: 24 bits, the smallest number is `2 ^ (-149)`. -/
def binary32 : Format := ⟨24, -149, 104, by decide⟩

namespace Format

/-- A significand fills the precision unless the exponent is the lowest one. -/
def IsCanonical (f : Format) (significand : Nat) (exponent : Int) : Prop :=
  significand < Nat.pow 2 f.precision ∧ f.lowest ≤ exponent ∧ exponent ≤ f.highest ∧
    (Nat.pow 2 (f.precision - 1) ≤ significand ∨ exponent = f.lowest)

instance (f : Format) (significand : Nat) (exponent : Int) :
    Decidable (f.IsCanonical significand exponent) :=
  inferInstanceAs (Decidable (_ ∧ _ ∧ _ ∧ _))

/-- The largest power of two that is at most a positive ratio. -/
def leadingPlace (num den : Nat) : Int :=
  let estimate : Int := (num.log2 : Int) - den.log2
  if scaleTwo den estimate ≤ scaleTwo num (-estimate) then estimate else estimate - 1

/-- The exponent of the last place that a positive ratio keeps. -/
def lastPlace (f : Format) (num den : Nat) : Int :=
  max f.lowest (leadingPlace num den - (f.precision - 1))

end Format

/-- A finite number of a format, `± significand * 2 ^ exponent`. -/
structure Binary (f : Format) where
  /-- Whether the sign is minus; zero has both signs. -/
  negative : Bool
  /-- The digits, as a natural below two to the precision. -/
  significand : Nat
  /-- The exponent of the last place of the significand. -/
  exponent : Int
  /-- Each number of the format is written in one way. -/
  isCanonical : f.IsCanonical significand exponent
  deriving DecidableEq

namespace Binary

variable {f g : Format}

/-- Zero with a sign. -/
def zero (negative : Bool) : Binary f :=
  ⟨negative, 0, f.lowest, Nat.two_pow_pos _, Int.le_refl _, f.lowest_le, Or.inr rfl⟩

/-- The number with the given parts, where they are the parts of a finite number. -/
def ofParts? (negative : Bool) (significand : Nat) (exponent : Int) : Option (Binary f) :=
  if h : f.IsCanonical significand exponent then some ⟨negative, significand, exponent, h⟩
  else none

/-- The number nearest to `± num / den`; none beyond the largest finite number. -/
def ofRatio? (negative : Bool) (num den : Nat) : Option (Binary f) :=
  if num = 0 then some (zero negative)
  else
    let place := f.lastPlace num den
    let rounded := roundDiv (scaleTwo num (-place)) (scaleTwo den place)
    if rounded = Nat.pow 2 f.precision then
      ofParts? negative (Nat.pow 2 (f.precision - 1)) (place + 1)
    else ofParts? negative rounded place

/-- The number nearest to a natural. -/
def ofNat? (n : Nat) : Option (Binary f) := ofRatio? false n 1

/-- The number of another format nearest to this one. -/
def convert? (x : Binary f) : Option (Binary g) :=
  ofRatio? x.negative (scaleTwo x.significand x.exponent) (scaleTwo 1 (-x.exponent))

/-- The rounded product. -/
def mul? (x y : Binary f) : Option (Binary f) :=
  let exponent := x.exponent + y.exponent
  ofRatio? (x.negative != y.negative)
    (scaleTwo (x.significand * y.significand) exponent) (scaleTwo 1 (-exponent))

/-- The rounded quotient by a number other than zero. -/
def div? (x y : Binary f) : Option (Binary f) :=
  let exponent := x.exponent - y.exponent
  ofRatio? (x.negative != y.negative)
    (scaleTwo x.significand exponent) (scaleTwo y.significand (-exponent))

/-- The number with the opposite sign. -/
def neg (x : Binary f) : Binary f := { x with negative := !x.negative }

/-- Whether the number is zero, of either sign. -/
def isZero (x : Binary f) : Bool := x.significand == 0

example : (ofNat? 3 : Option (Binary binary64)).map (fun x => (x.significand, x.exponent))
    = some (3 * 2 ^ 51, -51) := by decide +kernel

end Binary

end SchemaGate
