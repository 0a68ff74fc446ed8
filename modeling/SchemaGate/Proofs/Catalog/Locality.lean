import SchemaGate.Catalog.Paths
import SchemaGate.Catalog.Unfolding

/-!
# Unfolding reads what it reaches

Unfolding a type looks up the types on the paths of references from it, no further than
the bound, and of each its description and components alone. So two catalogs in which
these are the same give the same result, schema or error (`unfold_congr`).
-/

namespace SchemaGate

namespace Component

/-- Adding components looks at nothing but their schemas. -/
theorem addAll_congr {schemas others : Component → Except UnfoldError Schema}
    {components : List Component}
    (h : ∀ component ∈ components, schemas component = others component) (object : Schema) :
    addAll schemas object components = addAll others object components := by
  induction components generalizing object with
  | nil => rfl
  | cons component rest ih =>
    rw [List.forall_mem_cons] at h
    rw [addAll, addAll, h.1]
    cases others component with
    | error error => rfl
    | ok property => exact ih h.2 _

/-- The schema of a component looks at no type but the one that it refers to. -/
theorem schema_congr {component : Component} {refer other : TypeId → Except UnfoldError Schema}
    (h : component.kind = .custom → ∀ target, component.reference = some target →
      refer target = other target) : component.schema refer = component.schema other := by
  have elements : component.element refer = component.element other := by
    unfold element
    cases hk : component.kind with
    | custom =>
      cases hr : component.reference with
      | none => rfl
      | some target => exact h hk target hr
    | _ => rfl
  rw [schema, schema, elements]

end Component

namespace Catalog

/-- Two catalogs hold the same of a type, as far as its schema goes. -/
structure SameAt (catalog other : Catalog) (id : TypeId) : Prop where
  /-- It is missing from both or described alike. -/
  described : (catalog.type? id).map CustomType.description =
    (other.type? id).map CustomType.description
  /-- It has the same components in the same order. -/
  components : catalog.componentsOf id = other.componentsOf id

variable {catalog other : Catalog}

/-- Of the type itself an object looks at its description and its components. -/
theorem objectOf_congr {schemas others : Component → Except UnfoldError Schema} {id : TypeId}
    (same : catalog.SameAt other id)
    (h : ∀ component ∈ catalog.componentsOf id, schemas component = others component) :
    catalog.objectOf schemas id = other.objectOf others id := by
  have described := same.described
  unfold objectOf
  cases hc : catalog.type? id with
  | none =>
    cases ho : other.type? id with
    | none => rfl
    | some twin => simp [hc, ho] at described
  | some type =>
    cases ho : other.type? id with
    | none => simp [hc, ho] at described
    | some twin =>
      have text : type.description = twin.description := by simpa [hc, ho] using described
      simp only [text, ← same.components]
      exact Component.addAll_congr h _

/-- A component of a type that refers to another one is a reference. -/
theorem refers_of_mem_componentsOf {id target : TypeId} {component : Component}
    (hm : component ∈ catalog.componentsOf id) (hk : component.kind = .custom)
    (hr : component.reference = some target) : catalog.Refers id target := by
  obtain ⟨field, hf, rfl⟩ := List.mem_map.mp hm
  exact ⟨field, hf, hk, hr⟩

/-- Catalogs that hold the same of the types on the paths from a type unfold it alike. -/
theorem unfold_congr {limit slack : Nat} {id : TypeId}
    (h : ∀ steps ≤ slack, ∀ target, catalog.Path steps id target →
      catalog.SameAt other target) :
    catalog.unfold limit slack id = other.unfold limit slack id := by
  induction slack generalizing id with
  | zero => exact objectOf_congr (h 0 (Nat.le_refl 0) id (.here id)) fun _ _ => rfl
  | succ slack ih =>
    refine objectOf_congr (h 0 (Nat.zero_le _) id (.here id)) fun component hm => ?_
    refine Component.schema_congr fun hk target hr => ih fun steps hl reached hp => ?_
    have first := refers_of_mem_componentsOf hm hk hr
    exact h (steps + 1) (Nat.succ_le_succ hl) reached (.step first hp)

end Catalog

end SchemaGate
