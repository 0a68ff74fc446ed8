import SchemaGate.Catalog.CustomType

/-!
# Catalogs of custom types

A catalog is the whole of the stored custom types and fields, read once. Of several
types with one identifier the last one counts. Fields refer to types by identifier, so
a catalog may lack a type that is referred to, and references may run in cycles.
-/

namespace SchemaGate

/-- Why stored records could not be read. -/
inductive StorageError where
  /-- The types could not be read. -/
  | types (reason : String)
  /-- The fields could not be read. -/
  | fields (reason : String)
  deriving DecidableEq, Repr

/-- The wording of the error. -/
def StorageError.message : StorageError → String
  | .types reason => "failed to load custom types: " ++ reason
  | .fields reason => "failed to load custom type fields: " ++ reason

/-- A storage of records; each of the two reads may fail. -/
structure Storage where
  /-- Every stored type. -/
  types : Except StorageError (List CustomType)
  /-- Every stored field, in storage order. -/
  fields : Except StorageError (List TypeField)

/-- Custom types and the fields of all of them. -/
structure Catalog where
  /-- The types. -/
  types : List CustomType := []
  /-- The fields in storage order. -/
  fields : List TypeField := []
  /-- No two types have one identifier. -/
  distinct : (types.map CustomType.id).Nodup := by decide
  deriving DecidableEq

namespace Catalog

/-- The types that are not followed by another one with their identifier. -/
def latest : List CustomType → List CustomType
  | [] => []
  | type :: rest =>
    if rest.any fun other => other.id == type.id then latest rest else type :: latest rest

theorem mem_latest {type : CustomType} {types : List CustomType} (h : type ∈ latest types) :
    type ∈ types := by
  induction types with
  | nil => exact h
  | cons first rest ih =>
    unfold latest at h
    split at h
    · exact List.mem_cons_of_mem _ (ih h)
    · rcases List.mem_cons.mp h with rfl | h
      · exact List.mem_cons_self
      · exact List.mem_cons_of_mem _ (ih h)

/-- No two of the latest types have one identifier. -/
theorem nodup_ids_latest (types : List CustomType) :
    ((latest types).map CustomType.id).Nodup := by
  induction types with
  | nil => exact List.nodup_nil
  | cons first rest ih =>
    unfold latest
    split
    · exact ih
    · next h =>
      rw [List.map_cons, List.nodup_cons]
      refine ⟨fun hm => h ?_, ih⟩
      obtain ⟨other, ho, he⟩ := List.mem_map.mp hm
      exact List.any_eq_true.mpr ⟨other, mem_latest ho, by simp [he]⟩

/-- Types under distinct identifiers are all the latest ones. -/
theorem latest_of_nodup {types : List CustomType} (hn : (types.map CustomType.id).Nodup) :
    latest types = types := by
  induction types with
  | nil => rfl
  | cons type rest ih =>
    rw [List.map_cons, List.nodup_cons] at hn
    have alone : ¬ (rest.any fun other => other.id == type.id) = true := by
      intro later
      obtain ⟨other, hm, same⟩ := List.any_eq_true.mp later
      exact hn.1 (List.mem_map.mpr ⟨other, hm, beq_iff_eq.mp same⟩)
    rw [latest, if_neg alone, ih hn.2]

/-- The catalog of stored records. -/
def ofRecords (records : StoredRecords) : Catalog where
  types := latest records.types
  fields := records.fields
  distinct := nodup_ids_latest records.types

/-- Records under distinct identifiers are all in their catalog. -/
theorem types_ofRecords {records : StoredRecords}
    (hn : (records.types.map CustomType.id).Nodup) : (ofRecords records).types = records.types :=
  latest_of_nodup hn

/-- The catalog of a storage: types are read before fields. -/
def ofStorage (storage : Storage) : Except StorageError Catalog := do
  let types ← storage.types
  let fields ← storage.fields
  return ofRecords { types, fields }

/-- The type of a given identifier. -/
def type? (catalog : Catalog) (id : TypeId) : Option CustomType :=
  catalog.types.find? fun type => type.id == id

/-- The fields of a type in storage order; none if it has none. -/
def fieldsOf (catalog : Catalog) (id : TypeId) : List TypeField :=
  catalog.fields.filter fun field => field.owner == id

/-- The types of an application. -/
def ownedBy (catalog : Catalog) (app : AppId) : List CustomType :=
  catalog.types.filter fun type => type.app == app

/-- How many types there are. -/
def size (catalog : Catalog) : Nat := catalog.types.length

/-- Whether there is no type. -/
def isEmpty (catalog : Catalog) : Bool := catalog.types.isEmpty

/-- A type is found under its identifier, and no other one is. -/
theorem type?_eq_some_iff {catalog : Catalog} {id : TypeId} {type : CustomType} :
    catalog.type? id = some type ↔ type ∈ catalog.types ∧ type.id = id := by
  obtain ⟨types, fields, distinct⟩ := catalog
  simp only [type?]
  induction types with
  | nil => simp
  | cons first rest ih =>
    obtain ⟨apart, distinct⟩ := List.nodup_cons.mp distinct
    by_cases same : first.id = id
    · rw [List.find?_cons_of_pos (by simp [same]), Option.some.injEq, List.mem_cons]
      constructor
      · rintro rfl
        exact ⟨.inl rfl, same⟩
      · rintro ⟨rfl | later, owned⟩
        · rfl
        · exact absurd (List.mem_map.mpr ⟨type, later, owned.trans same.symm⟩) apart
    · rw [List.find?_cons_of_neg (by simp [same]), ih distinct, List.mem_cons]
      refine and_congr_left fun owned => (or_iff_right ?_).symm
      rintro rfl
      exact same owned

end Catalog

end SchemaGate
