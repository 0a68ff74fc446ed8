import SchemaGate.Proofs.Catalog.Assembly
import SchemaGate.Proofs.Schema.DocumentShape

/-!
# How deep the documents of types nest

A reference that is followed adds at most three brackets to the document of a type: two of the
object that it leads to, and one more where the field is a list. So the bound on nested
references bounds the brackets of every document that unfolding gives. Its properties have the
names of stored fields.
-/

namespace SchemaGate

namespace Node

/-- A description is no part of the properties of a schema. -/
theorem embedsNothing_describedAs {ι : Type} {node : Node ι} {description : String} :
    (node.describedAs description).EmbedsNothing ↔ node.EmbedsNothing := by
  rw [embedsNothing_iff, embedsNothing_iff]
  rfl

theorem embedsNothing_bare (kind : NodeKind) : (bare kind).EmbedsNothing := by
  rw [embedsNothing_iff]
  simp [bare, KeyedList.keys]

theorem embedsNothing_arrayOf {items : Schema} (h : items.EmbedsNothing) :
    (arrayOf items).EmbedsNothing := by
  rw [embedsNothing_iff]
  simp [arrayOf, KeyedList.keys, h]

end Node

namespace Component

variable {component : Component} {refer : TypeId → Except UnfoldError Schema} {property : Schema}

/-- The schema of one value is a bare scalar, or that of a type, for a kind that is no scalar. -/
theorem element_scalar_or_refer {element : Schema} (h : component.element refer = .ok element) :
    (∃ kind : NodeKind, kind.isScalar = true ∧ element = .bare kind) ∨
      component.kind.isScalar = false ∧ ∃ target, refer target = .ok element := by
  rcases element_cases h with ⟨-, rfl⟩ | ⟨-, rfl⟩ | ⟨-, rfl⟩ | ⟨hk, target, -, ht⟩
  · exact .inl ⟨.string, rfl, rfl⟩
  · exact .inl ⟨.number, rfl, rfl⟩
  · exact .inl ⟨.boolean, rfl, rfl⟩
  · exact .inr ⟨by rw [hk]; rfl, target, ht⟩

/-- The schema of a component nests at most one bracket deeper than those of types. -/
theorem nesting_of_schema {room : Nat} (inside : 0 < room)
    (hr : ∀ target element, refer target = .ok element → element.nesting ≤ room)
    (h : component.schema refer = .ok property) : property.nesting ≤ room + 1 := by
  obtain ⟨element, he, rfl⟩ := schema_eq_ok_iff.mp h
  have below : element.nesting ≤ room := by
    rcases element_scalar_or_refer he with ⟨kind, scalar, rfl⟩ | ⟨-, target, ht⟩
    · have one : (Node.bare kind).nesting ≤ 1 := Node.nesting_le_of_isScalar scalar
      omega
    · exact hr target element ht
  unfold wrap
  split
  · refine Node.nesting_le_of_array rfl fun child hc => ?_
    obtain rfl : element = child := Option.some.inj hc
    exact below
  · split
    · next scalar =>
      rcases element_scalar_or_refer he with ⟨kind, simple, rfl⟩ | ⟨other, -⟩
      · have one : ((Node.bare kind).describedAs component.description).nesting ≤ 1 :=
          Node.nesting_le_of_isScalar simple
        omega
      · rw [scalar] at other
        cases other
    · omega

/-- The schema of a component embeds nothing if those of types do not. -/
theorem embedsNothing_of_schema
    (hr : ∀ target element, refer target = .ok element → element.EmbedsNothing)
    (h : component.schema refer = .ok property) : property.EmbedsNothing := by
  obtain ⟨element, he, rfl⟩ := schema_eq_ok_iff.mp h
  have inner : element.EmbedsNothing := by
    rcases element_scalar_or_refer he with ⟨kind, -, rfl⟩ | ⟨-, target, ht⟩
    · exact Node.embedsNothing_bare kind
    · exact hr target element ht
  unfold wrap
  split
  · exact Node.embedsNothing_describedAs.mpr (Node.embedsNothing_arrayOf inner)
  · split
    · exact Node.embedsNothing_describedAs.mpr inner
    · exact inner

end Component

namespace Catalog

variable {catalog : Catalog} {limit slack : Nat} {id : TypeId} {schema : Schema}

/-- The schema of a type is an object whose properties are the schemas of its components. -/
theorem shape_of_objectOf {schemas : Component → Except UnfoldError Schema}
    (h : catalog.objectOf schemas id = .ok schema) :
    schema.kind = .object ∧ schema.items = none ∧ ∀ property ∈ schema.properties,
      ∃ component ∈ catalog.componentsOf id, component.name = property.1 ∧
        schemas component = .ok property.2 := by
  unfold objectOf at h
  split at h
  · cases h
  · refine ⟨Component.kind_of_addAll h, ?_, fun property hm => ?_⟩
    · refine Component.addAll_induction (motive := fun held => held.items = none) h rfl ?_
      intro held component property _ _ none
      rw [Component.items_addTo, none]
    · exact (Component.mem_properties_of_addAll h property hm).resolve_left List.not_mem_nil

/-- Each reference that may be followed is worth three brackets. -/
theorem nesting_of_unfold (h : catalog.unfold limit slack id = .ok schema) :
    schema.nesting ≤ 3 * slack + 2 := by
  induction slack generalizing id schema with
  | zero =>
    obtain ⟨object, -, properties⟩ := shape_of_objectOf h
    refine Node.nesting_le_of_object object fun property hm => ?_
    obtain ⟨_, -, -, impossible⟩ := properties property hm
    cases impossible
  | succ slack ih =>
    obtain ⟨object, -, properties⟩ := shape_of_objectOf h
    refine Node.nesting_le_of_object object fun property hm => ?_
    obtain ⟨component, -, -, unfolded⟩ := properties property hm
    exact Component.nesting_of_schema (Nat.succ_pos _) (fun _ _ => ih) unfolded

/-- An object embeds nothing if the schemas of its components do not and no field has the name
that announces a document. -/
theorem embedsNothing_of_objectOf {schemas : Component → Except UnfoldError Schema}
    (plain : ∀ field ∈ catalog.fields, field.name ≠ Json.embeddingKey)
    (hs : ∀ component property, schemas component = .ok property → property.EmbedsNothing)
    (h : catalog.objectOf schemas id = .ok schema) : schema.EmbedsNothing := by
  obtain ⟨-, none, properties⟩ := shape_of_objectOf h
  rw [Node.embedsNothing_iff, none]
  refine ⟨fun announced => ?_, fun property hm => ?_, fun _ hc => nomatch hc⟩
  · obtain ⟨property, hm, name⟩ := List.mem_map.mp announced
    obtain ⟨component, listed, same, -⟩ := properties property hm
    obtain ⟨field, hf, rfl⟩ := List.mem_map.mp listed
    exact plain field (List.mem_filter.mp hf).1 (same.trans name)
  · obtain ⟨component, -, -, unfolded⟩ := properties property hm
    exact hs component property.2 unfolded

/-- So the schema of a type embeds nothing if no field has this name. -/
theorem embedsNothing_of_unfold
    (plain : ∀ field ∈ catalog.fields, field.name ≠ Json.embeddingKey)
    (h : catalog.unfold limit slack id = .ok schema) : schema.EmbedsNothing := by
  induction slack generalizing id schema with
  | zero => exact embedsNothing_of_objectOf plain (fun _ _ hs => by cases hs) h
  | succ slack ih =>
    refine embedsNothing_of_objectOf plain (fun component property hs => ?_) h
    exact Component.embedsNothing_of_schema (fun _ _ => ih) hs

end Catalog

end SchemaGate
