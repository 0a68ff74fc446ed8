import SchemaGate.Catalog.Paths
import SchemaGate.Catalog.Unfolding

/-!
# When a type unfolds

Unfolding a type stops at the first thing that is wrong, so it succeeds exactly when
nothing is wrong anywhere. What may be wrong is said of the paths of references from
the type: a type on them does not exist, a custom field on them refers to nothing, or
a path as long as the bound ends at a type that still has fields. A type that reaches
a cycle has such a path for every bound.
-/

namespace SchemaGate

namespace Component

/-- Components are added without an error exactly if each one of them has a schema. -/
theorem exists_addAll_eq_ok_iff {schemas : Component → Except UnfoldError Schema}
    (object : Schema) (components : List Component) :
    (∃ whole, addAll schemas object components = .ok whole) ↔
      ∀ component ∈ components, ∃ property, schemas component = .ok property := by
  induction components generalizing object with
  | nil => simp [addAll_nil_eq_ok_iff]
  | cons component rest ih =>
    rw [List.forall_mem_cons]
    simp only [addAll_cons_eq_ok_iff]
    constructor
    · rintro ⟨whole, property, hs, hr⟩
      exact ⟨⟨property, hs⟩, (ih _).mp ⟨whole, hr⟩⟩
    · rintro ⟨⟨property, hs⟩, hr⟩
      obtain ⟨whole, hw⟩ := (ih (component.addTo property object)).mpr hr
      exact ⟨whole, property, hs, hw⟩

/-- A scalar component always has a schema; a custom one has the schema of its reference. -/
theorem exists_schema_eq_ok_iff {component : Component}
    {refer : TypeId → Except UnfoldError Schema} :
    (∃ schema, component.schema refer = .ok schema) ↔
      (component.kind = .custom → ∃ target, component.reference = some target ∧
        ∃ schema, refer target = .ok schema) := by
  have wrapped : (∃ schema, component.schema refer = .ok schema) ↔
      ∃ schema, component.element refer = .ok schema := by
    simp only [schema_eq_ok_iff]
    exact ⟨fun ⟨_, element, he, _⟩ => ⟨element, he⟩, fun ⟨element, he⟩ => ⟨_, element, he, rfl⟩⟩
  rw [wrapped, element]
  cases component.kind with
  | custom => cases component.reference <;> simp
  | _ => simp

end Component

namespace Catalog

variable {catalog : Catalog}

/-- The object of a type has a schema if the type exists and its components have schemas. -/
theorem exists_objectOf_eq_ok_iff {schemas : Component → Except UnfoldError Schema}
    {id : TypeId} :
    (∃ schema, catalog.objectOf schemas id = .ok schema) ↔
      catalog.type? id ≠ none ∧
        ∀ field ∈ catalog.fieldsOf id, ∃ schema, schemas field.component = .ok schema := by
  unfold objectOf
  cases catalog.type? id with
  | none => simp
  | some type => simp [Component.exists_addAll_eq_ok_iff, componentsOf]

/-- At the bound a type unfolds if it exists and has no fields. -/
theorem exists_unfold_zero_iff {limit : Nat} {id : TypeId} :
    (∃ schema, catalog.unfold limit 0 id = .ok schema) ↔
      catalog.type? id ≠ none ∧ catalog.fieldsOf id = [] := by
  rw [unfold, exists_objectOf_eq_ok_iff]
  simp [List.eq_nil_iff_forall_not_mem]

/-- Below the bound a type unfolds if it exists, its custom fields refer to something, and
what they refer to unfolds one step closer to the bound. -/
theorem exists_unfold_succ_iff {limit slack : Nat} {id : TypeId} :
    (∃ schema, catalog.unfold limit (slack + 1) id = .ok schema) ↔
      catalog.type? id ≠ none ∧
      (∀ field ∈ catalog.fieldsOf id, field.kind = .custom → field.reference ≠ none) ∧
      ∀ target, catalog.Refers id target →
        ∃ schema, catalog.unfold limit slack target = .ok schema := by
  rw [unfold, exists_objectOf_eq_ok_iff]
  refine and_congr_right fun _ => ?_
  simp only [Component.exists_schema_eq_ok_iff]
  constructor
  · intro h
    refine ⟨fun field hf hk => ?_, fun target => ?_⟩
    · obtain ⟨target, hr, _⟩ := h field hf hk
      rw [show field.reference = some target from hr]
      exact Option.some_ne_none target
    · rintro ⟨field, hf, hk, hr⟩
      obtain ⟨other, ho, hu⟩ := h field hf hk
      obtain rfl : target = other := Option.some.inj (hr.symm.trans ho)
      exact hu
  · rintro ⟨hr, ht⟩ field hf hk
    obtain ⟨target, he⟩ := Option.ne_none_iff_exists'.mp (hr field hf hk)
    exact ⟨target, he, ht target ⟨field, hf, hk, he⟩⟩

/-- Nothing is wrong on the paths of references from a type up to a length. -/
structure ResolvesWithin (catalog : Catalog) (length : Nat) (id : TypeId) : Prop where
  /-- Every type on a path exists. -/
  exist : ∀ steps ≤ length, ∀ target, catalog.Path steps id target →
    catalog.type? target ≠ none
  /-- Short of the full length, custom fields refer to something. -/
  refer : ∀ steps < length, ∀ target, catalog.Path steps id target →
    ∀ field ∈ catalog.fieldsOf target, field.kind = .custom → field.reference ≠ none
  /-- At the full length there are no fields left. -/
  stop : ∀ target, catalog.Path length id target → catalog.fieldsOf target = []

/-- Nothing is wrong on the one path without references. -/
theorem resolvesWithin_zero_iff {id : TypeId} :
    catalog.ResolvesWithin 0 id ↔ catalog.type? id ≠ none ∧ catalog.fieldsOf id = [] := by
  constructor
  · intro h
    exact ⟨h.exist 0 (Nat.le_refl _) id (.here id), h.stop id (.here id)⟩
  · rintro ⟨he, hs⟩
    refine ⟨fun steps hl target hp => ?_, fun steps hl => absurd hl (Nat.not_lt_zero _),
      fun target hp => ?_⟩
    · obtain rfl := Nat.le_zero.mp hl
      rwa [← path_zero_iff.mp hp]
    · rwa [← path_zero_iff.mp hp]

/-- Nothing is wrong on paths of one step more if nothing is wrong at the type itself, nor
on the paths from what it refers to. -/
theorem resolvesWithin_succ_iff {length : Nat} {id : TypeId} :
    catalog.ResolvesWithin (length + 1) id ↔
      catalog.type? id ≠ none ∧
      (∀ field ∈ catalog.fieldsOf id, field.kind = .custom → field.reference ≠ none) ∧
      ∀ target, catalog.Refers id target → catalog.ResolvesWithin length target := by
  constructor
  · intro h
    refine ⟨h.exist 0 (Nat.zero_le _) id (.here id),
      h.refer 0 (Nat.succ_pos _) id (.here id), fun middle hr => ?_⟩
    exact ⟨fun steps hl target hp => h.exist (steps + 1) (by omega) target (.step hr hp),
      fun steps hl target hp => h.refer (steps + 1) (by omega) target (.step hr hp),
      fun target hp => h.stop target (.step hr hp)⟩
  · rintro ⟨he, hf, hm⟩
    refine ⟨fun steps hl target hp => ?_, fun steps hl target hp => ?_, fun target hp => ?_⟩
    · cases hp with
      | here => exact he
      | step hr hp => exact (hm _ hr).exist _ (by omega) target hp
    · cases hp with
      | here => exact hf
      | step hr hp => exact (hm _ hr).refer _ (by omega) target hp
    · obtain ⟨middle, hr, hp⟩ := path_succ_iff.mp hp
      exact (hm middle hr).stop target hp

/-- Unfolding succeeds exactly when nothing is wrong on the paths that it follows. -/
theorem exists_unfold_iff {limit slack : Nat} {id : TypeId} :
    (∃ schema, catalog.unfold limit slack id = .ok schema) ↔
      catalog.ResolvesWithin slack id := by
  induction slack generalizing id with
  | zero => rw [exists_unfold_zero_iff, resolvesWithin_zero_iff]
  | succ slack ih =>
    rw [exists_unfold_succ_iff, resolvesWithin_succ_iff]
    simp only [ih]

/-- A type has a schema under a bound exactly when nothing is wrong on the paths up to it. -/
theorem exists_schemaOf_iff {limit : Nat} {id : TypeId} :
    (∃ schema, catalog.schemaOf limit id = .ok schema) ↔ catalog.ResolvesWithin limit id := by
  rw [schemaOf, typeSchema]
  exact exists_unfold_iff

/-- On paths from a type that reaches a cycle something is wrong up to every length. -/
theorem not_resolvesWithin_of_reachesCycle {id : TypeId} (h : catalog.ReachesCycle id)
    (length : Nat) : ¬ catalog.ResolvesWithin length id := by
  intro hr
  obtain ⟨target, hp⟩ := exists_path_of_reachesCycle h (length + 1)
  obtain ⟨middle, hm, field, hf, -⟩ := hp.last
  exact absurd hf (by simp [hr.stop middle hm])

/-- A type unfolds under a bound exactly when every type on a path of references up to the
bound exists, no custom field before the bound lacks its reference, and no type at the
bound has fields. Hence a type that reaches a cycle unfolds under no bound. -/
theorem unfolds_iff_paths_resolve (catalog : Catalog) (limit : Nat) (id : TypeId) :
    ((∃ schema, catalog.schemaOf limit id = .ok schema) ↔
      (∀ steps ≤ limit, ∀ target, catalog.Path steps id target →
        catalog.type? target ≠ none) ∧
      (∀ steps < limit, ∀ target, catalog.Path steps id target →
        ∀ field ∈ catalog.fieldsOf target, field.kind = .custom → field.reference ≠ none) ∧
      ∀ target, catalog.Path limit id target → catalog.fieldsOf target = []) ∧
    (catalog.ReachesCycle id → ∀ bound, ∃ error, catalog.schemaOf bound id = .error error) := by
  refine ⟨exists_schemaOf_iff.trans ⟨fun h => ⟨h.exist, h.refer, h.stop⟩,
    fun h => ⟨h.1, h.2.1, h.2.2⟩⟩, fun hc bound => ?_⟩
  cases hs : catalog.schemaOf bound id with
  | error error => exact ⟨error, rfl⟩
  | ok schema =>
    exact absurd (exists_schemaOf_iff.mp ⟨schema, hs⟩)
      (not_resolvesWithin_of_reachesCycle hc bound)

/-- Menus list dishes, and dishes name an allergen, of which nothing more is said. A guest brings
another guest. -/
def menus : Catalog where
  types := [⟨⟨1⟩, ⟨7⟩, "Menu", ""⟩, ⟨⟨2⟩, ⟨7⟩, "Dish", ""⟩, ⟨⟨3⟩, ⟨7⟩, "Allergen", ""⟩,
    ⟨⟨4⟩, ⟨7⟩, "Guest", ""⟩]
  fields := [(TypeField.custom ⟨1⟩ ⟨1⟩ "dishes" ⟨2⟩).asArray,
    TypeField.custom ⟨2⟩ ⟨2⟩ "allergen" ⟨3⟩, TypeField.custom ⟨3⟩ ⟨4⟩ "companion" ⟨4⟩]

/-- A menu unfolds under the length of the path to allergens, which ends there, and under no
smaller bound; a guest unfolds under no bound. -/
theorem unfolds_iff_paths_resolve_menus :
    (∃ schema, menus.schemaOf 2 ⟨1⟩ = .ok schema) ∧ menus.Path 2 ⟨1⟩ ⟨3⟩ ∧
    menus.type? ⟨3⟩ ≠ none ∧ menus.fieldsOf ⟨3⟩ = [] ∧
    menus.schemaOf 1 ⟨1⟩ = .error (.limitExceeded 1) ∧
    menus.ReachesCycle ⟨4⟩ ∧ ∀ bound, ∃ error, menus.schemaOf bound ⟨4⟩ = .error error := by
  have unfolds : ∃ schema, menus.schemaOf 2 ⟨1⟩ = .ok schema := ⟨_, rfl⟩
  have dishes : menus.Refers ⟨1⟩ ⟨2⟩ := ⟨_, List.mem_cons_self, rfl, rfl⟩
  have allergen : menus.Refers ⟨2⟩ ⟨3⟩ := ⟨_, List.mem_cons_self, rfl, rfl⟩
  have companion : menus.Refers ⟨4⟩ ⟨4⟩ := ⟨_, List.mem_cons_self, rfl, rfl⟩
  have path : menus.Path 2 ⟨1⟩ ⟨3⟩ := .step dishes (.step allergen (.here ⟨3⟩))
  have cycle : menus.ReachesCycle ⟨4⟩ := ⟨0, 0, ⟨4⟩, .here ⟨4⟩, .step companion (.here ⟨4⟩)⟩
  obtain ⟨exist, -, stop⟩ := (unfolds_iff_paths_resolve menus 2 ⟨1⟩).1.mp unfolds
  exact ⟨unfolds, path, exist 2 (Nat.le_refl 2) ⟨3⟩ path, stop ⟨3⟩ path, rfl, cycle,
    (unfolds_iff_paths_resolve menus 2 ⟨4⟩).2 cycle⟩

end Catalog

end SchemaGate
