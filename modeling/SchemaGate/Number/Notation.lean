import SchemaGate.Number.Basic
import SchemaGate.Number.Shortest

/-!
# Decimal notation

How the digits of a number are laid out: positionally, always with a point and at
least one digit on each side of it, while the leading digit stands in a middle
range of places; otherwise with one digit before the point and a signed exponent.
Zero is `0.0`, and a minus sign stands in front of negative numbers and of
negative zero. A float is never written like an integer.
-/

namespace SchemaGate

namespace DecimalDigits

/-- Positional notation: zeros fill up to the point. -/
def positional (d : DecimalDigits) : List Char :=
  if d.leading < 0 then
    '0' :: '.' :: (List.replicate (-d.leading - 1).toNat '0' ++ d.digits)
  else
    let whole := d.leading.toNat + 1
    let padded := d.digits ++ List.replicate (whole - d.digits.length) '0'
    match padded.drop whole with
    | [] => padded ++ ['.', '0']
    | fraction => padded.take whole ++ '.' :: fraction

/-- Exponent notation: `1e+16`, `1.5e-7`. -/
def scientific (d : DecimalDigits) : List Char :=
  let mantissa := match d.digits with
    | first :: second :: rest => first :: '.' :: second :: rest
    | short => short
  let sign := if d.leading < 0 then '-' else '+'
  mantissa ++ 'e' :: sign :: Nat.toDigits 10 d.leading.natAbs

example : positional ⟨['1', '2'], 3⟩ = ['1', '2', '0', '0', '.', '0'] := by decide

example : positional ⟨['1', '2'], 0⟩ = ['1', '.', '2'] := by decide

example : positional ⟨['1', '2'], -2⟩ = ['0', '.', '0', '1', '2'] := by decide

end DecimalDigits

/-- The places of the leading digit for which numbers are written positionally. -/
structure PositionalRange where
  /-- The lowest such place. -/
  lowest : Int
  /-- The highest such place. -/
  highest : Int

namespace PositionalRange

/-- 64-bit numbers are positional from `0.00001` to sixteen digits before the point. -/
def wide : PositionalRange := ⟨-5, 15⟩

/-- 32-bit numbers are positional from `0.000001` to thirteen digits before the point. -/
def narrow : PositionalRange := ⟨-6, 12⟩

end PositionalRange

/-- The text of a float. -/
def Binary.write {f : Format} (range : PositionalRange) (x : Binary f) : List Char :=
  let magnitude :=
    if x.isZero then ['0', '.', '0']
    else
      let d := x.shortest
      if range.lowest ≤ d.leading ∧ d.leading ≤ range.highest then d.positional
      else d.scientific
  if x.negative then '-' :: magnitude else magnitude

/-- An integer in decimal, with a minus sign in front of a negative one. -/
def writeInt (value : Int) : List Char :=
  if value < 0 then '-' :: Nat.toDigits 10 value.natAbs else Nat.toDigits 10 value.natAbs

/-- The text of a number. -/
def Number.write : Number → List Char
  | .int value => writeInt value
  | .float value => value.write .wide

end SchemaGate
