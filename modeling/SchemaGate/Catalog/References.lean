import SchemaGate.Catalog.Basic
import SchemaGate.Digraph.Elimination

/-!
# Checks before a type is saved

References must lead to existing types of the same application, and the references
among an application's types must stay free of cycles once the new fields of a type
are saved. A type that has no identifier yet stands under a placeholder.
-/

namespace SchemaGate

/-- What is wrong with the references of a type. -/
inductive ReferenceError where
  /-- A field of a custom kind refers to nothing. -/
  | missing (field : String)
  /-- A field refers to a type that does not exist. -/
  | unknown (field : String) (target : TypeId)
  /-- A field refers to a type of another application. -/
  | foreign (field : String) (target : TypeId)
  /-- The references would form a cycle. -/
  | cycle (involved : List TypeId)
  deriving DecidableEq, Repr

/-- The wording of the error. -/
def ReferenceError.message : ReferenceError → String
  | .missing field => "field reference must be provided for custom type field: " ++ field
  | .unknown _ target =>
    "invalid field reference: custom type not found: " ++ target.display
  | .foreign field target =>
    "field reference must belong to the same application: " ++ field ++ " -> " ++ target.display
  | .cycle involved =>
    "circular reference detected in custom type fields: ["
      ++ ", ".intercalate (involved.map Id.inspect) ++ "]"

/-- The identifier under which a type stands that is not stored yet. -/
def placeholder : TypeId := ⟨0⟩

/-- The types that fields refer to, in order, repetitions included. -/
def referencesOf (fields : List TypeField) : List TypeId :=
  (fields.filter fun field => field.kind == .custom).filterMap TypeField.reference

namespace Catalog

/-- Check the reference of one field. -/
def auditReference (catalog : Catalog) (app : AppId) (field : TypeField) :
    Except ReferenceError Unit :=
  if field.kind = .custom then
    match field.reference with
    | none => .error (.missing field.name)
    | some target =>
      match catalog.type? target with
      | none => .error (.unknown field.name target)
      | some type => if type.app = app then .ok () else .error (.foreign field.name target)
  else .ok ()

/-- Check the references of fields in order. -/
def auditReferences (catalog : Catalog) (app : AppId) :
    List TypeField → Except ReferenceError Unit
  | [] => .ok ()
  | field :: rest =>
    match catalog.auditReference app field with
    | .ok () => auditReferences catalog app rest
    | .error error => .error error

/-- An application's types in rising order, and behind them the pending one if it is none of
them. -/
def referenceNodes (catalog : Catalog) (app : AppId) (pending : TypeId) : List TypeId :=
  let stored := Id.rising ((catalog.ownedBy app).map CustomType.id)
  if pending ∈ stored then stored else stored ++ [pending]

theorem nodup_referenceNodes (catalog : Catalog) (app : AppId) (pending : TypeId) :
    (catalog.referenceNodes app pending).Nodup := by
  have rising := Id.nodup_rising ((catalog.ownedBy app).map CustomType.id)
  unfold referenceNodes
  dsimp only
  split
  · exact rising
  · next absent =>
    rw [(List.perm_append_singleton pending _).nodup_iff]
    exact List.nodup_cons.mpr ⟨absent, rising⟩

/-- The references among an application's types, with the fields of one type replaced. -/
def referenceGraph (catalog : Catalog) (app : AppId) (pending : TypeId)
    (fields : List TypeField) : Digraph TypeId where
  edges := .tabulate (catalog.referenceNodes app pending) fun id =>
    referencesOf (if id = pending then fields else catalog.fieldsOf id)
  distinct := by
    rw [KeyedList.keys_tabulate]
    exact catalog.nodup_referenceNodes app pending

/-- Check that an application's references stay free of cycles once fields are saved for a
type; none stands for a type that is being created. -/
def auditCycles (catalog : Catalog) (app : AppId) (pending : Option TypeId)
    (fields : List TypeField) : Except ReferenceError Unit :=
  match (catalog.referenceGraph app (pending.getD placeholder) fields).leftover with
  | [] => .ok ()
  | involved => .error (.cycle involved)

end Catalog

end SchemaGate
