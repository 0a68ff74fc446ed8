/-!
# Kinds of fields

A field or a parameter holds a scalar of some kind or a value of a custom type.
-/

namespace SchemaGate

/-- The declared kind of a field or parameter. -/
inductive FieldKind where
  /-- Any number. -/
  | number
  /-- Text. -/
  | string
  /-- True or false. -/
  | boolean
  /-- A value of another custom type. -/
  | custom
  deriving DecidableEq, Repr

/-- A name that is no field kind. -/
structure UnknownFieldKind where
  /-- The name. -/
  name : String
  deriving DecidableEq, Repr

/-- The wording of the error. -/
def UnknownFieldKind.message (error : UnknownFieldKind) : String :=
  "unknown field kind: " ++ error.name

namespace FieldKind

/-- The stored name of a kind. -/
def name : FieldKind → String
  | number => "number"
  | string => "string"
  | boolean => "boolean"
  | custom => "custom"

/-- Whether values of the kind have no parts. -/
def isScalar : FieldKind → Bool
  | custom => false
  | _ => true

/-- The kinds under their names. -/
def variants : List (String × FieldKind) :=
  [number, string, boolean, custom].map fun kind => (kind.name, kind)

/-- The kind of a given name. -/
def ofName (name : String) : Except UnknownFieldKind FieldKind :=
  match variants.find? (·.1 == name) with
  | some (_, kind) => .ok kind
  | none => .error ⟨name⟩

theorem ofName_name (kind : FieldKind) : ofName kind.name = .ok kind := by
  cases kind <;> simp [ofName, variants, FieldKind.name]

end FieldKind

end SchemaGate
