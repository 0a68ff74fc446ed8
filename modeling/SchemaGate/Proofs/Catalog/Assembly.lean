import SchemaGate.Catalog.CallSchemas
import SchemaGate.Proofs.Schema.Closure

/-!
# Objects put together from components

An object schema grows by one component at a time, each of which adds a property and
perhaps a required name. So what one component keeps holds of the finished object
(`addAll_induction`): the object is well-formed and closed whatever the components are
called, and its properties are schemas of components. A component has the last word on
its name unless a later one has the same name.
-/

namespace SchemaGate

namespace Component

variable {schemas : Component → Except UnfoldError Schema} {object whole : Schema}

/-- Components are added in two goes. -/
theorem addAll_append_eq_ok_iff {front back : List Component} :
    addAll schemas object (front ++ back) = .ok whole ↔
      ∃ middle, addAll schemas object front = .ok middle ∧
        addAll schemas middle back = .ok whole := by
  induction front generalizing object with
  | nil => simp [addAll_nil_eq_ok_iff]
  | cons component rest ih =>
    rw [List.cons_append, addAll_cons_eq_ok_iff]
    simp only [addAll_cons_eq_ok_iff, ih]
    constructor
    · rintro ⟨property, hs, middle, hf, hb⟩
      exact ⟨middle, ⟨property, hs, hf⟩, hb⟩
    · rintro ⟨middle, ⟨property, hs, hf⟩, hb⟩
      exact ⟨property, hs, middle, hf, hb⟩

/-- What holds of an object and is kept by each component holds of the whole. -/
theorem addAll_induction {motive : Schema → Prop} {components : List Component}
    (h : addAll schemas object components = .ok whole) (start : motive object)
    (step : ∀ object component property, component ∈ components →
      schemas component = .ok property → motive object →
      motive (component.addTo property object)) : motive whole := by
  induction components generalizing object with
  | nil =>
    obtain rfl := addAll_nil_eq_ok_iff.mp h
    exact start
  | cons component rest ih =>
    obtain ⟨property, hs, hr⟩ := addAll_cons_eq_ok_iff.mp h
    refine ih hr (step object component property List.mem_cons_self hs start) ?_
    exact fun object other property hm => step object other property (List.mem_cons_of_mem _ hm)

/-- Components leave the kind of the object alone. -/
theorem kind_of_addAll {components : List Component}
    (h : addAll schemas object components = .ok whole) : whole.kind = object.kind := by
  refine addAll_induction (motive := fun held => held.kind = object.kind) h rfl ?_
  intro held component property _ _ hk
  rw [kind_addTo, hk]

/-- A name is required if it was or if a component that must be present has it. -/
theorem mem_required_of_addAll {components : List Component}
    (h : addAll schemas object components = .ok whole) {name : String} :
    name ∈ whole.required ↔ name ∈ object.required ∨
      ∃ component ∈ components, component.required = true ∧ component.name = name := by
  induction components generalizing object with
  | nil =>
    obtain rfl := addAll_nil_eq_ok_iff.mp h
    simp
  | cons component rest ih =>
    obtain ⟨property, -, hr⟩ := addAll_cons_eq_ok_iff.mp h
    rw [ih hr, required_addTo]
    split
    · next hc =>
      simp only [NameSet.mem_add, or_assoc, List.exists_mem_cons_iff, hc, true_and,
        @eq_comm _ name]
    · next hc => simp [hc]

/-- A name is declared if it was or if a component has it. -/
theorem mem_keys_properties_of_addAll {components : List Component}
    (h : addAll schemas object components = .ok whole) {name : String} :
    name ∈ KeyedList.keys whole.properties ↔ name ∈ KeyedList.keys object.properties ∨
      ∃ component ∈ components, component.name = name := by
  induction components generalizing object with
  | nil =>
    obtain rfl := addAll_nil_eq_ok_iff.mp h
    simp
  | cons component rest ih =>
    obtain ⟨property, -, hr⟩ := addAll_cons_eq_ok_iff.mp h
    rw [ih hr, properties_addTo, KeyedList.mem_keys_insert, List.exists_mem_cons_iff,
      @eq_comm _ name, or_assoc, or_left_comm]

/-- Each property was there or is the schema of a component of its name. -/
theorem mem_properties_of_addAll {components : List Component}
    (h : addAll schemas object components = .ok whole) :
    ∀ property ∈ whole.properties, property ∈ object.properties ∨
      ∃ component ∈ components, component.name = property.1 ∧
        schemas component = .ok property.2 := by
  refine addAll_induction (motive := fun held => ∀ property ∈ held.properties,
    property ∈ object.properties ∨ ∃ component ∈ components, component.name = property.1 ∧
      schemas component = .ok property.2) h (fun _ hm => .inl hm) ?_
  intro held component schema hc hs ih property hm
  rw [properties_addTo] at hm
  rcases KeyedList.mem_of_mem_insert hm with rfl | hm
  · exact .inr ⟨component, hc, rfl, hs⟩
  · exact ih property hm

/-- Components of other names leave what stands under a name alone. -/
theorem find?_properties_of_addAll_of_ne {components : List Component} {name : String}
    (h : addAll schemas object components = .ok whole)
    (others : ∀ component ∈ components, component.name ≠ name) :
    KeyedList.find? name whole.properties = KeyedList.find? name object.properties := by
  refine addAll_induction (motive := fun held => KeyedList.find? name held.properties =
    KeyedList.find? name object.properties) h rfl ?_
  intro held component property hc _ ih
  rw [properties_addTo, KeyedList.find?_insert_of_ne (others component hc), ih]

/-- The last component of a name has its schema under that name. -/
theorem find?_properties_of_addAll {front back : List Component} {component : Component}
    (h : addAll schemas object (front ++ component :: back) = .ok whole)
    (last : ∀ later ∈ back, later.name ≠ component.name) :
    ∃ property, schemas component = .ok property ∧
      KeyedList.find? component.name whole.properties = some property := by
  obtain ⟨middle, -, hb⟩ := addAll_append_eq_ok_iff.mp h
  obtain ⟨property, hs, hr⟩ := addAll_cons_eq_ok_iff.mp hb
  refine ⟨property, hs, ?_⟩
  rw [find?_properties_of_addAll_of_ne hr last, properties_addTo, KeyedList.find?_insert_self]

theorem wellFormed_and_closed_wrap {component : Component} {element : Schema}
    (h : element.WellFormed ∧ element.Closed) :
    (component.wrap element).WellFormed ∧ (component.wrap element).Closed := by
  unfold wrap
  split
  · rw [Node.wellFormed_describedAs, Node.closed_describedAs]
    exact ⟨Node.wellFormed_arrayOf h.1, Node.closed_arrayOf h.2⟩
  · split
    · rw [Node.wellFormed_describedAs, Node.closed_describedAs]
      exact h
    · exact h

/-- The schema of a component is well-formed and closed if those of types are. -/
theorem wellFormed_and_closed_of_schema {component : Component}
    {refer : TypeId → Except UnfoldError Schema} {property : Schema}
    (hr : ∀ target element, refer target = .ok element → element.WellFormed ∧ element.Closed)
    (h : component.schema refer = .ok property) : property.WellFormed ∧ property.Closed := by
  obtain ⟨element, he, rfl⟩ := schema_eq_ok_iff.mp h
  refine wellFormed_and_closed_wrap ?_
  rcases element_cases he with ⟨-, rfl⟩ | ⟨-, rfl⟩ | ⟨-, rfl⟩ | ⟨-, target, -, ht⟩
  · exact ⟨Node.wellFormed_bare _, Node.closed_bare _⟩
  · exact ⟨Node.wellFormed_bare _, Node.closed_bare _⟩
  · exact ⟨Node.wellFormed_bare _, Node.closed_bare _⟩
  · exact hr target element ht

/-- One more component keeps an object well-formed. -/
theorem wellFormed_addTo {component : Component} {property : Schema} (hp : property.WellFormed)
    (ho : object.WellFormed) : (component.addTo property object).WellFormed := by
  obtain ⟨keys, properties, items⟩ := Node.wellFormed_iff.mp ho
  rw [Node.wellFormed_iff, properties_addTo, items_addTo]
  refine ⟨KeyedList.nodup_keys_insert keys, fun entry hm => ?_, items⟩
  rcases KeyedList.mem_of_mem_insert hm with rfl | hm
  · exact hp
  · exact properties entry hm

/-- One more component keeps an object closed: the name that it requires is declared by it,
and earlier names stay declared. -/
theorem closed_addTo {component : Component} {property : Schema} (hp : property.Closed)
    (ho : object.Closed) : (component.addTo property object).Closed := by
  obtain ⟨declared, properties, items⟩ := Node.closed_iff.mp ho
  rw [Node.closed_iff, kind_addTo, properties_addTo, required_addTo, items_addTo]
  refine ⟨fun hk name hr => ?_, fun entry hm => ?_, items⟩
  · rw [KeyedList.mem_keys_insert]
    split at hr
    · exact (NameSet.mem_add.mp hr).symm.imp_right (declared hk name)
    · exact .inr (declared hk name hr)
  · rcases KeyedList.mem_of_mem_insert hm with rfl | hm
    · exact hp
    · exact properties entry hm

/-- Schemas of components that are well-formed and closed make such an object. -/
theorem wellFormed_and_closed_of_addAll {components : List Component}
    (hs : ∀ component property, schemas component = .ok property →
      property.WellFormed ∧ property.Closed)
    (h : addAll schemas object components = .ok whole)
    (ho : object.WellFormed ∧ object.Closed) : whole.WellFormed ∧ whole.Closed := by
  refine addAll_induction (motive := fun held => held.WellFormed ∧ held.Closed) h ho ?_
  intro held component property _ hp ih
  have below := hs component property hp
  exact ⟨wellFormed_addTo below.1 ih.1, closed_addTo below.2 ih.2⟩

end Component

end SchemaGate
