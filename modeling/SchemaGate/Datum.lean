import SchemaGate.Number.Notation
import SchemaGate.Schema.Checker
import SchemaGate.Schema.Pruning

/-!
# Data of a caller's own types

Callers hold data in types of their own: integers of any width, floats of two widths,
optional values, sequences, maps with keys of many kinds, structures and variants.
Schemas speak of JSON values only, so data is normalized first. Floats that are not finite
become null, a variant becomes an object with its name as the only key, and the later of
two equal keys wins. Integers beyond 64 bits and keys that are no scalars cannot be
normalized; no schema admits a datum without normal form, and nothing is kept of it.
-/

namespace SchemaGate

/-- A datum of a caller's own type. -/
inductive Datum where
  /-- An integer of any width. -/
  | int (value : Int)
  /-- A 32-bit float; none if it is not finite. -/
  | float32 (value : Option (Binary binary32))
  /-- A 64-bit float; none if it is not finite. -/
  | float64 (value : Option (Binary binary64))
  /-- A truth value. -/
  | bool (value : Bool)
  /-- A character. -/
  | char (value : Char)
  /-- A text. -/
  | string (value : String)
  /-- Bytes. -/
  | bytes (values : List Nat)
  /-- A missing optional value. -/
  | none
  /-- A value without content. -/
  | unit
  /-- A present optional value. -/
  | some (inner : Datum)
  /-- A value under another type name. -/
  | wrapped (inner : Datum)
  /-- A sequence or tuple. -/
  | sequence (elements : List Datum)
  /-- A map. -/
  | map (entries : List (Datum × Datum))
  /-- A structure with named fields. -/
  | struct (fields : List (String × Datum))
  /-- A variant without content. -/
  | unitVariant (name : String)
  /-- A variant with one value. -/
  | variant (name : String) (inner : Datum)
  /-- A variant with a sequence of values. -/
  | tupleVariant (name : String) (elements : List Datum)
  /-- A variant with named fields. -/
  | structVariant (name : String) (fields : List (String × Datum))

/-- Why a datum has no normal form. -/
inductive DatumError where
  /-- An integer does not fit in 64 bits. -/
  | numberOutOfRange
  /-- A key of a map is no scalar. -/
  | keyNotString
  /-- A key of a map is a float that is not finite. -/
  | keyNotFinite
  deriving DecidableEq, Repr

/-- The wording of the error. -/
def DatumError.message : DatumError → String
  | .numberOutOfRange => "cannot normalize value: number out of range"
  | .keyNotString => "cannot normalize value: key must be a string"
  | .keyNotFinite => "cannot normalize value: float key must be finite (got NaN or +/-inf)"

namespace Datum

instance : Inhabited Datum := ⟨none⟩

/-- A float as a value; null if it is not finite. -/
def floatValue (value : Option (Binary binary64)) : Json :=
  match value with
  | .some x => .number (.float x)
  | .none => .null

/-- A finite float as a key. -/
def floatKey {f : Format} (range : PositionalRange) (value : Option (Binary f)) :
    Except DatumError String :=
  match value with
  | .some x => .ok (String.ofList (x.write range))
  | .none => .error .keyNotFinite

/-- A datum as a key of an object. -/
def key : Datum → Except DatumError String
  | int value => .ok (String.ofList (writeInt value))
  | float32 value => floatKey .narrow value
  | float64 value => floatKey .wide value
  | bool value => .ok (if value then "true" else "false")
  | char value => .ok value.toString
  | string value => .ok value
  | unitVariant name => .ok name
  | wrapped inner => key inner
  | _ => .error .keyNotString

mutual

/-- The normal form of a datum. -/
def normalize : Datum → Except DatumError Json
  | int value =>
    if Number.IsExact value then .ok (.ofInt value) else .error .numberOutOfRange
  | float32 value => .ok (floatValue (value.bind Binary.convert?))
  | float64 value => .ok (floatValue value)
  | bool value => .ok (.bool value)
  | char value => .ok (.string value.toString)
  | string value => .ok (.string value)
  | bytes values => .ok (.array (values.map Json.ofNat))
  | none => .ok .null
  | unit => .ok .null
  | some inner => normalize inner
  | wrapped inner => normalize inner
  | sequence elements => do return .array (← normalizeElements elements)
  | map entries => do return .object (KeyedList.sorted (← normalizeEntries entries))
  | struct fields => do return .object (KeyedList.sorted (← normalizeFields fields))
  | unitVariant name => .ok (.string name)
  | variant name inner => do return .object [(name, ← normalize inner)]
  | tupleVariant name elements => do return .object [(name, .array (← normalizeElements elements))]
  | structVariant name fields => do
    return .object [(name, .object (KeyedList.sorted (← normalizeFields fields)))]
termination_by structural datum => datum

/-- The normal forms of elements. -/
def normalizeElements : List Datum → Except DatumError (List Json)
  | [] => .ok []
  | datum :: rest => do
    let value ← normalize datum
    return value :: (← normalizeElements rest)
termination_by structural elements => elements

/-- The normal forms of entries, each key before its value. -/
def normalizeEntries : List (Datum × Datum) → Except DatumError (List (String × Json))
  | [] => .ok []
  | (datum, inner) :: rest => do
    let name ← key datum
    let value ← normalize inner
    return (name, value) :: (← normalizeEntries rest)
termination_by structural entries => entries

/-- The normal forms of named fields. -/
def normalizeFields : List (String × Datum) → Except DatumError (List (String × Json))
  | [] => .ok []
  | (name, datum) :: rest => do
    let value ← normalize datum
    return (name, value) :: (← normalizeFields rest)
termination_by structural fields => fields

end

/-- Whether a schema admits a datum; without a schema every datum is admitted. -/
def admitted {ι : Type} [DecidableEq ι] (schema : Option (Node ι)) (datum : Datum) : Bool :=
  match datum.normalize with
  | .ok value => admits schema value
  | .error _ => schema.isNone

/-- What a schema keeps of a datum, or null. -/
def pruned {ι : Type} (schema : Option (Node ι)) (datum : Datum) : Json :=
  match datum.normalize with
  | .ok value => prune schema value
  | .error _ => .null

end Datum

end SchemaGate
