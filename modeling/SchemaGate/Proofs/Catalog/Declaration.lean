import SchemaGate.Proofs.Catalog.Assembly

/-!
# What a catalog yields requires declared names only

A required field is a field, so the schema of a type requires declared names only, at
every depth and whatever names its fields share; the same holds of the sides of an
interface, where a parameter that is left out is not required either. Hence pruning a
value that such a schema admits gives a value that it admits.
-/

namespace SchemaGate

namespace Catalog

variable {catalog : Catalog}

/-- The object of a type is well-formed and closed if the schemas of its components are. -/
theorem wellFormed_and_closed_of_objectOf {schemas : Component → Except UnfoldError Schema}
    {id : TypeId} {schema : Schema}
    (hs : ∀ component property, schemas component = .ok property →
      property.WellFormed ∧ property.Closed)
    (h : catalog.objectOf schemas id = .ok schema) : schema.WellFormed ∧ schema.Closed := by
  unfold objectOf at h
  split at h
  · cases h
  · refine Component.wellFormed_and_closed_of_addAll hs h ?_
    rw [Node.wellFormed_describedAs, Node.closed_describedAs]
    exact ⟨Node.wellFormed_bare _, Node.closed_bare _⟩

/-- Unfolding a type gives a well-formed and closed schema. -/
theorem wellFormed_and_closed_of_unfold {limit slack : Nat} {id : TypeId} {schema : Schema}
    (h : catalog.unfold limit slack id = .ok schema) : schema.WellFormed ∧ schema.Closed := by
  induction slack generalizing id schema with
  | zero => exact wellFormed_and_closed_of_objectOf (fun _ _ hs => by cases hs) h
  | succ slack ih =>
    refine wellFormed_and_closed_of_objectOf (fun component property hs => ?_) h
    exact Component.wellFormed_and_closed_of_schema (fun _ _ => ih) hs

/-- So does unfolding a component. -/
theorem wellFormed_and_closed_of_componentSchema {descent : Descent} {component : Component}
    {schema : Schema} (h : catalog.componentSchema descent component = .ok schema) :
    schema.WellFormed ∧ schema.Closed := by
  rw [componentSchema_eq] at h
  cases hc : descent.check with
  | error error => rw [hc] at h; cases h
  | ok below =>
    rw [hc] at h
    exact Component.wellFormed_and_closed_of_schema (fun _ _ => wellFormed_and_closed_of_unfold) h

/-- The schemas that a catalog yields: of its types under any bound, and of the sides of
interfaces. -/
def Yields (catalog : Catalog) (schema : Schema) : Prop :=
  (∃ limit id, catalog.schemaOf limit id = .ok schema) ∨
    ∃ params side, catalog.sideSchema params side = .ok schema

/-- What a catalog yields is well-formed and closed. -/
theorem Yields.wellFormed_and_closed {schema : Schema} (h : catalog.Yields schema) :
    schema.WellFormed ∧ schema.Closed := by
  rcases h with ⟨limit, id, h⟩ | ⟨params, side, h⟩
  · exact wellFormed_and_closed_of_unfold h
  · exact Component.wellFormed_and_closed_of_addAll
      (fun _ _ => wellFormed_and_closed_of_componentSchema) h
      ⟨Node.wellFormed_bare _, Node.closed_bare _⟩

end Catalog

/-- A schema all of whose object nodes require declared names only still admits a value that
it admitted after pruning it. Every schema that a catalog yields, for a type under any bound
or for a side of an interface, is such a schema. -/
theorem closed_admits_pruned :
    (∀ {ι : Type} [DecidableEq ι] (schema : Node ι),
      schema.Coherent → schema.WellFormed → schema.Closed → ∀ value : Json,
      admits (some schema) value = true →
      admits (some schema) (prune (some schema) value) = true) ∧
    ∀ (catalog : Catalog) (schema : Schema), catalog.Yields schema →
      schema.WellFormed ∧ schema.Closed ∧ ∀ value : Json,
        admits (some schema.numbered) value = true →
        admits (some schema.numbered) (prune (some schema.numbered) value) = true := by
  refine ⟨fun schema hc hw hd value ha => admits_prune hc hw hd ha, fun catalog schema hy => ?_⟩
  obtain ⟨hw, hd⟩ := hy.wellFormed_and_closed
  refine ⟨hw, hd, fun value ha => ?_⟩
  exact admits_prune schema.coherent_numbered (schema.wellFormed_numbered.mpr hw)
    (schema.closed_numbered.mpr hd) ha

/-- A parcel has a label, without which it is none, and stops, of which a name may be
known. -/
def parcels : Catalog where
  types := [⟨⟨1⟩, ⟨7⟩, "Parcel", ""⟩, ⟨⟨2⟩, ⟨7⟩, "Stop", ""⟩]
  fields := [
    TypeField.asRequired { id := ⟨1⟩, owner := ⟨1⟩, name := "label", kind := .string },
    (TypeField.custom ⟨2⟩ ⟨1⟩ "stops" ⟨2⟩).asArray,
    { id := ⟨3⟩, owner := ⟨2⟩, name := "name", kind := .string }]

/-- What parcels unfold to. -/
def parcelSchema : Schema :=
  { label := (), kind := .object, required := .ofList ["label"],
    properties := [("label", .bare .string),
      ("stops", .arrayOf
        { label := (), kind := .object, properties := [("name", .bare .string)] })] }

/-- A parcel with nulls that its schema puts up with, and with a member of no field. -/
def parcel : Json := .object [
  ("label", .string "books"), ("weight", .number (.int 3)),
  ("stops", .array [.null, .object [("name", .null)]])]

theorem closed_admits_pruned_parcel :
    parcels.Yields parcelSchema ∧ admits (some parcelSchema.numbered) parcel = true ∧
    prune (some parcelSchema.numbered) parcel =
      .object [("label", .string "books"), ("stops", .array [.object []])] ∧
    admits (some parcelSchema.numbered) (prune (some parcelSchema.numbered) parcel) = true := by
  have yields : parcels.Yields parcelSchema := .inl ⟨2, ⟨1⟩, by rfl⟩
  have admitted : admits (some parcelSchema.numbered) parcel = true := by decide
  obtain ⟨hw, hd, -⟩ := closed_admits_pruned.2 parcels parcelSchema yields
  have pruned := closed_admits_pruned.1 parcelSchema.numbered (Node.coherent_numbered _)
    ((Node.wellFormed_numbered _).mpr hw) ((Node.closed_numbered _).mpr hd) parcel admitted
  exact ⟨yields, admitted, by decide, pruned⟩

end SchemaGate
