import SchemaGate.Number.Notation
import SchemaGate.Text.Visible

/-!
# Faults of shape

Why a document is not a record of the wanted shape. Every cause is a constructor, and
`ShapeFault.message` gives its wording. A reader of text can also stop because the
text is no document; `ReadFault` is either of the two.
-/

namespace SchemaGate

/-- What stood in a document where something else was wanted. -/
inductive Found where
  /-- The word null. -/
  | null
  /-- A truth value. -/
  | bool (value : Bool)
  /-- A number. -/
  | number (value : Number)
  /-- A text. -/
  | text (value : String)
  /-- An array, whatever it holds. -/
  | sequence
  /-- An object, whatever it holds. -/
  | map

/-- What was found, as messages put it. -/
def Found.describe : Found → String
  | .null => "null"
  | .bool true => "boolean `true`"
  | .bool false => "boolean `false`"
  | .number (.int value) => "integer `" ++ String.ofList (writeInt value) ++ "`"
  | .number (.float value) => "floating point `" ++ String.ofList (value.write .wide) ++ "`"
  | .text value => "string " ++ Text.visible value
  | .sequence => "sequence"
  | .map => "map"

/-- What a document must hold in some place. -/
inductive Expected where
  /-- A text. -/
  | text
  /-- A truth value. -/
  | flag
  /-- A signed integer of 64 bits. -/
  | integer
  /-- A list. -/
  | sequence
  /-- Named parts. -/
  | map
  /-- A list read as a set. -/
  | set
  /-- One of a few names. -/
  | variant
  /-- Nothing beside a name. -/
  | unit
  /-- A record of a given name. -/
  | record (name : String)
  deriving DecidableEq, Repr

/-- What was wanted, as messages put it. -/
def Expected.describe : Expected → String
  | .text => "a string"
  | .flag => "a boolean"
  | .integer => "i64"
  | .sequence => "a sequence"
  | .map => "a map"
  | .set => "a set"
  | .variant => "string or map"
  | .unit => "unit"
  | .record name => "struct " ++ name

/-- Why a document does not have the shape of a record. -/
inductive ShapeFault where
  /-- Something of another kind stands there. -/
  | mismatch (found : Found) (expected : Expected)
  /-- An integer does not fit in 64 bits with a sign. -/
  | outOfRange (value : Int)
  /-- An object that should name one variant has no key or several. -/
  | keyCount
  /-- A record written as a list ends before a member that it cannot do without. -/
  | tooShort (length : Nat) (record : String) (members : Nat)
  /-- A record written as a list has more elements than the record has members. -/
  | tooLong (length : Nat)
  /-- A member without default is missing. -/
  | missing (member : String)
  /-- A member is written twice. -/
  | duplicate (member : String)
  /-- A name is none of the known ones. -/
  | unknownVariant (name : String) (known : List String)

namespace ShapeFault

/-- The known names of an enumeration: two are joined by a word, more are listed. -/
def listNames (names : List String) : String :=
  match names.map fun name => "`" ++ name ++ "`" with
  | [only] => only
  | [first, second] => first ++ " or " ++ second
  | names => "one of " ++ ", ".intercalate names

/-- The wording of a fault. -/
def message : ShapeFault → String
  | mismatch found expected =>
    "invalid type: " ++ found.describe ++ ", expected " ++ expected.describe
  | outOfRange value =>
    "invalid value: " ++ (Found.number (.int value)).describe ++ ", expected "
      ++ Expected.integer.describe
  | keyCount => "invalid value: map, expected map with a single key"
  | tooShort length record members =>
    "invalid length " ++ toString length ++ ", expected struct " ++ record ++ " with "
      ++ toString members ++ " elements"
  | tooLong length =>
    "invalid length " ++ toString length ++ ", expected fewer elements in array"
  | missing member => "missing field `" ++ member ++ "`"
  | duplicate member => "duplicate field `" ++ member ++ "`"
  | unknownVariant name known =>
    "unknown variant `" ++ name ++ "`, expected " ++ listNames known

end ShapeFault

/-- Why a document was not read. -/
inductive ReadFault where
  /-- The text is no document, or nests too deep. -/
  | malformed
  /-- The document has the wrong shape. -/
  | shape (fault : ShapeFault)

example : (ShapeFault.mismatch (.text "x\"") .flag).message
    = "invalid type: string \"x\\\"\", expected a boolean" := by decide +kernel

example : (ShapeFault.unknownVariant "x" ["a", "b", "c"]).message
    = "unknown variant `x`, expected one of `a`, `b`, `c`" := by decide +kernel

end SchemaGate
