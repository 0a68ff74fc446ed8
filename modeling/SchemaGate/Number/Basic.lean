import SchemaGate.Number.Binary

/-!
# Numbers

A number is an exact integer or a finite float; the two never mix, so `1` and `1.0`
are different numbers. Exact integers are those that fit in 64 bits, with or
without a sign.
-/

namespace SchemaGate

/-- A number: an exact integer or a float. -/
inductive Number where
  /-- An integer, kept exactly. -/
  | int (value : Int)
  /-- A 64-bit float. -/
  | float (value : Binary binary64)
  deriving DecidableEq

namespace Number

/-- The integers that are kept exactly, from `-2 ^ 63` to `2 ^ 64 - 1`. -/
def IsExact (value : Int) : Prop := Int64.minValue.toInt ≤ value ∧ value < UInt64.size

instance (value : Int) : Decidable (IsExact value) := inferInstanceAs (Decidable (_ ∧ _))

end Number

end SchemaGate
