import Mathlib.Data.List.Nodup
import SchemaGate.Catalog.Paths
import SchemaGate.Catalog.References
import SchemaGate.Digraph.Reachability

/-!
# The graph of an application's references

The graph that the check for cycles looks at is made of two things: the identifiers of
the application's types together with the one whose fields are replaced, and what these
types refer to in the catalog with the replaced fields. Its edges are the references
between its nodes (`edge_referenceGraph_iff`).
-/

namespace SchemaGate

/-- The references of fields are those of the custom ones. -/
theorem mem_referencesOf_iff {fields : List TypeField} {target : TypeId} :
    target ∈ referencesOf fields ↔
      ∃ field ∈ fields, field.kind = .custom ∧ field.reference = some target := by
  simp [referencesOf, and_assoc]

namespace Catalog

/-- The catalog with the fields of one type replaced. -/
def withFields (catalog : Catalog) (id : TypeId) (fields : List TypeField) : Catalog where
  types := catalog.types
  fields := catalog.fields.filter (fun field => field.owner != id) ++
    fields.map fun field => { field with owner := id }
  distinct := catalog.distinct

variable {catalog : Catalog} {app : AppId} {pending : TypeId} {fields : List TypeField}

@[simp] theorem ownedBy_withFields :
    (catalog.withFields pending fields).ownedBy app = catalog.ownedBy app := rfl

/-- The replaced fields are the given ones, in their order. -/
theorem fieldsOf_withFields_self (catalog : Catalog) (pending : TypeId)
    (fields : List TypeField) : (catalog.withFields pending fields).fieldsOf pending =
      fields.map fun field => { field with owner := pending } := by
  have none : (catalog.fields.filter fun field => field.owner != pending).filter
      (fun field => field.owner == pending) = [] := by
    rw [List.filter_filter, List.filter_eq_nil_iff]
    simp
  have all : (fields.map fun field => { field with owner := pending }).filter
      (fun field => field.owner == pending) =
      fields.map fun field => { field with owner := pending } := by
    rw [List.filter_eq_self]
    simp
  rw [fieldsOf, withFields, List.filter_append, none, all, List.nil_append]

/-- The fields of other types stay. -/
theorem fieldsOf_withFields_of_ne {id : TypeId} (h : id ≠ pending) :
    (catalog.withFields pending fields).fieldsOf id = catalog.fieldsOf id := by
  have none : (fields.map fun field => { field with owner := pending }).filter
      (fun field => field.owner == id) = [] := by
    simp [List.filter_map, Function.comp_def, h.symm]
  rw [fieldsOf, withFields, List.filter_append, none, List.append_nil, List.filter_filter]
  refine List.filter_congr fun field _ => ?_
  by_cases ho : field.owner = id
  · simp [ho, h]
  · simp [ho]

/-- With replaced fields a type refers to what its fields then refer to. -/
theorem refers_withFields_iff {source target : TypeId} :
    (catalog.withFields pending fields).Refers source target ↔
      target ∈ referencesOf (if source = pending then fields else catalog.fieldsOf source) := by
  rw [mem_referencesOf_iff, Refers]
  by_cases h : source = pending
  · subst h
    rw [fieldsOf_withFields_self, if_pos rfl]
    constructor
    · rintro ⟨_, hf, hk, hr⟩
      obtain ⟨field, hm, rfl⟩ := List.mem_map.mp hf
      exact ⟨field, hm, hk, hr⟩
    · rintro ⟨field, hf, hk, hr⟩
      exact ⟨_, List.mem_map_of_mem hf, hk, hr⟩
  · rw [fieldsOf_withFields_of_ne h, if_neg h]

/-- The nodes of the graph. -/
theorem keys_referenceGraph (catalog : Catalog) (app : AppId) (pending : TypeId)
    (fields : List TypeField) :
    (catalog.referenceGraph app pending fields).edges.keys =
      catalog.referenceNodes app pending :=
  KeyedList.keys_tabulate _ _

/-- The nodes are the application's types and the pending one. -/
theorem mem_keys_referenceGraph_iff {id : TypeId} :
    id ∈ (catalog.referenceGraph app pending fields).edges.keys ↔
      (∃ type ∈ catalog.ownedBy app, type.id = id) ∨ id = pending := by
  have stored : id ∈ Id.rising ((catalog.ownedBy app).map CustomType.id) ↔
      ∃ type ∈ catalog.ownedBy app, type.id = id := by
    rw [Id.mem_rising, List.mem_map]
  rw [keys_referenceGraph, ← stored, referenceNodes]
  split
  · next hm => exact ⟨.inl, fun h => h.elim (fun hs => hs) fun he => he ▸ hm⟩
  · simp

/-- A node's edges lead to what its fields refer to. -/
theorem find?_referenceGraph {source : TypeId}
    (hk : source ∈ (catalog.referenceGraph app pending fields).edges.keys) :
    (catalog.referenceGraph app pending fields).edges.find? source =
      some (referencesOf (if source = pending then fields else catalog.fieldsOf source)) := by
  rw [keys_referenceGraph] at hk
  exact KeyedList.find?_tabulate hk _

/-- The edges are the references between nodes in the catalog with replaced fields. -/
theorem edge_referenceGraph_iff {source target : TypeId} :
    (catalog.referenceGraph app pending fields).Edge source target ↔
      source ∈ (catalog.referenceGraph app pending fields).edges.keys ∧
      target ∈ (catalog.referenceGraph app pending fields).edges.keys ∧
      (catalog.withFields pending fields).Refers source target := by
  constructor
  · intro he
    have hs := he.source_mem
    obtain ⟨ht, targets, hf, hm⟩ := he
    rw [find?_referenceGraph hs] at hf
    obtain rfl := Option.some.inj hf
    exact ⟨hs, ht, refers_withFields_iff.mpr hm⟩
  · rintro ⟨hs, ht, hr⟩
    exact ⟨ht, _, find?_referenceGraph hs, refers_withFields_iff.mp hr⟩

/-- The graph has at most one node for each of the application's types, if the pending one
is among them. -/
theorem length_referenceGraph_le (hp : ∃ type ∈ catalog.ownedBy app, type.id = pending) :
    (catalog.referenceGraph app pending fields).edges.length ≤ (catalog.ownedBy app).length := by
  have stored : pending ∈ Id.rising ((catalog.ownedBy app).map CustomType.id) := by
    rwa [Id.mem_rising, List.mem_map]
  have bound := Id.length_rising_le ((catalog.ownedBy app).map CustomType.id)
  rw [List.length_map] at bound
  simpa [referenceGraph, KeyedList.tabulate, referenceNodes, stored] using bound

end Catalog

end SchemaGate
