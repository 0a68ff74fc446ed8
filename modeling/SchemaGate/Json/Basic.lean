import SchemaGate.KeyedList
import SchemaGate.Number.Basic

/-!
# JSON values

A JSON value is a tree of scalars, arrays and objects. The members of an object are
a list, so the same type serves documents, whose members stand in the order in
which they are written, and values in normal form, whose objects have their keys in
rising order without repetition. `sorted` takes a document to its normal form.
Equality is decided member by member.
-/

namespace SchemaGate

/-- A JSON value, or a document with its members in written order. -/
inductive Json where
  /-- The null value. -/
  | null
  /-- A truth value. -/
  | bool (value : Bool)
  /-- A number. -/
  | number (value : Number)
  /-- A text. -/
  | string (value : String)
  /-- A sequence of values. -/
  | array (elements : List Json)
  /-- Values under keys. -/
  | object (members : List (String × Json))

/-- The logical kinds of values. -/
inductive ValueKind where
  /-- Null. -/
  | null
  /-- A truth value. -/
  | boolean
  /-- A number, integer or float. -/
  | number
  /-- A text. -/
  | string
  /-- A sequence. -/
  | array
  /-- Values under keys. -/
  | object
  deriving DecidableEq, Repr

/-- The name of a kind, as messages give it. -/
def ValueKind.name : ValueKind → String
  | .null => "null"
  | .boolean => "boolean"
  | .number => "number"
  | .string => "string"
  | .array => "array"
  | .object => "object"

namespace Json

instance : Inhabited Json := ⟨null⟩

/-- The logical kind of a value. -/
def kind : Json → ValueKind
  | null => .null
  | bool _ => .boolean
  | number _ => .number
  | string _ => .string
  | array _ => .array
  | object _ => .object

/-- Whether the value is null. -/
def isNull : Json → Bool
  | null => true
  | _ => false

theorem isNull_iff {value : Json} : value.isNull = true ↔ value = null := by
  cases value <;> simp [isNull]

/-- An exact integer as a value. -/
def ofInt (value : Int) : Json := number (.int value)

/-- A natural as a value. -/
def ofNat (value : Nat) : Json := ofInt value

/-- Texts as an array. -/
def ofStrings (values : List String) : Json := array (values.map string)

/-- The value under a key of an object. -/
def get? (key : String) : Json → Option Json
  | object members => KeyedList.find? key members
  | _ => none

mutual

/-- The normal form of a document: keys in rising order, of a repeated one the last value. -/
def sorted : Json → Json
  | null => null
  | bool value => bool value
  | number value => number value
  | string value => string value
  | array elements => array (sortedElements elements)
  | object members => object (KeyedList.sorted (sortedMembers members))
termination_by structural value => value

/-- Normal forms of elements. -/
def sortedElements : List Json → List Json
  | [] => []
  | value :: rest => sorted value :: sortedElements rest
termination_by structural elements => elements

/-- Normal forms of members, in written order. -/
def sortedMembers : List (String × Json) → List (String × Json)
  | [] => []
  | (key, value) :: rest => (key, sorted value) :: sortedMembers rest
termination_by structural members => members

end

mutual

/-- Whether two values are written the same, members in the same order. -/
def same : Json → Json → Bool
  | null, null => true
  | bool a, bool b => a == b
  | number a, number b => a == b
  | string a, string b => a == b
  | array a, array b => sameElements a b
  | object a, object b => sameMembers a b
  | _, _ => false
termination_by structural value => value

/-- Whether elements agree pairwise. -/
def sameElements : List Json → List Json → Bool
  | [], [] => true
  | a :: as, b :: bs => same a b && sameElements as bs
  | _, _ => false
termination_by structural elements => elements

/-- Whether members agree pairwise, in keys and in values. -/
def sameMembers : List (String × Json) → List (String × Json) → Bool
  | [], [] => true
  | (k, a) :: as, (l, b) :: bs => k == l && same a b && sameMembers as bs
  | _, _ => false
termination_by structural members => members

end

mutual

theorem same_iff : (a b : Json) → (same a b = true ↔ a = b)
  | null, b => by cases b <;> simp [same]
  | bool _, b => by cases b <;> simp [same]
  | number _, b => by cases b <;> simp [same]
  | string _, b => by cases b <;> simp [same]
  | array as, b => by
    cases b with
    | array bs => simp [same, sameElements_iff as bs]
    | _ => simp [same]
  | object as, b => by
    cases b with
    | object bs => simp [same, sameMembers_iff as bs]
    | _ => simp [same]

theorem sameElements_iff : (as bs : List Json) → (sameElements as bs = true ↔ as = bs)
  | [], bs => by cases bs <;> simp [sameElements]
  | a :: as, bs => by
    cases bs with
    | nil => simp [sameElements]
    | cons b bs => simp [sameElements, same_iff a b, sameElements_iff as bs]

theorem sameMembers_iff : (as bs : List (String × Json)) → (sameMembers as bs = true ↔ as = bs)
  | [], bs => by cases bs <;> simp [sameMembers]
  | (k, a) :: as, bs => by
    cases bs with
    | nil => simp [sameMembers]
    | cons b bs =>
      obtain ⟨l, b⟩ := b
      simp [sameMembers, same_iff a b, sameMembers_iff as bs]

end

instance : DecidableEq Json := fun a b => decidable_of_iff _ (same_iff a b)

end Json

end SchemaGate
