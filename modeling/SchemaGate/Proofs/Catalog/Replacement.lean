import SchemaGate.Proofs.Catalog.ReferenceGraph
import SchemaGate.Proofs.Catalog.Resolution
import SchemaGate.Proofs.Digraph.Leftover

/-!
# Saving the fields of a type

Two procedures answer whether an application's types stay sound once the fields of one
of them are replaced: the check for cycles eliminates identifiers, and unfolding follows
records up to a bound. Where all references lead to types of the application they
agree, if the bound is the number of the application's types. Without a cycle no path of
references is that long; around a cycle there are paths of every length.
-/

namespace SchemaGate.Catalog

variable {catalog : Catalog} {app : AppId} {pending : TypeId} {fields : List TypeField}

/-- The references of fields pass if the custom ones lead to types of the application. -/
theorem auditReferences_eq_ok_iff :
    catalog.auditReferences app fields = .ok () ↔
      ∀ field ∈ fields, field.kind = .custom → ∃ target, field.reference = some target ∧
        ∃ type, catalog.type? target = some type ∧ type.app = app := by
  have one : ∀ field, catalog.auditReference app field = .ok () ↔
      (field.kind = .custom → ∃ target, field.reference = some target ∧
        ∃ type, catalog.type? target = some type ∧ type.app = app) := by
    intro field
    unfold auditReference
    by_cases hk : field.kind = .custom
    · cases hr : field.reference with
      | none => simp [hk]
      | some target =>
        cases ht : catalog.type? target with
        | none => simp [hk, ht]
        | some type => by_cases ha : type.app = app <;> simp [hk, ht, ha]
    · simp [hk]
  induction fields with
  | nil => simp [auditReferences]
  | cons field rest ih =>
    rw [auditReferences, List.forall_mem_cons, ← one field]
    cases catalog.auditReference app field with
    | error error => simp
    | ok _ => simpa using ih

/-- The types of an application are those that are found and belong to it. -/
theorem mem_ownedBy_iff {type : CustomType} :
    type ∈ catalog.ownedBy app ↔ catalog.type? type.id = some type ∧ type.app = app := by
  rw [ownedBy, List.mem_filter, beq_iff_eq, type?_eq_some_iff, and_iff_left rfl]

/-- The check for cycles passes exactly if the graph of references has none. -/
theorem auditCycles_eq_ok_iff {pending : Option TypeId} :
    catalog.auditCycles app pending fields = .ok () ↔
      (catalog.referenceGraph app (pending.getD placeholder) fields).Acyclic := by
  rw [← Digraph.leftover_eq_nil_iff, auditCycles]
  cases (catalog.referenceGraph app (pending.getD placeholder) fields).leftover <;> simp

/-- The references among an application's types with the fields of one of them replaced:
each custom field leads to a type of the application. -/
structure Settled (catalog : Catalog) (app : AppId) (pending : TypeId)
    (fields : List TypeField) : Prop where
  /-- The type whose fields are replaced is one of the application. -/
  stored : ∃ type ∈ catalog.ownedBy app, type.id = pending
  /-- The new fields lead to types of the application. -/
  replaced : catalog.auditReferences app fields = .ok ()
  /-- The fields of the other types lead to types of the application. -/
  kept : ∀ type ∈ catalog.ownedBy app, type.id ≠ pending →
    catalog.auditReferences app (catalog.fieldsOf type.id) = .ok ()

namespace Settled

variable (h : catalog.Settled app pending fields)
include h

/-- The nodes are the application's types. -/
theorem mem_keys_iff {id : TypeId} :
    id ∈ (catalog.referenceGraph app pending fields).edges.keys ↔
      ∃ type ∈ catalog.ownedBy app, type.id = id := by
  rw [mem_keys_referenceGraph_iff]
  refine or_iff_left_of_imp ?_
  rintro rfl
  exact h.stored

/-- With the fields replaced, a node's custom fields lead to nodes. -/
theorem exists_reference {id : TypeId}
    (hk : id ∈ (catalog.referenceGraph app pending fields).edges.keys) {field : TypeField}
    (hf : field ∈ (catalog.withFields pending fields).fieldsOf id) (hc : field.kind = .custom) :
    ∃ target, field.reference = some target ∧
      target ∈ (catalog.referenceGraph app pending fields).edges.keys := by
  have lead : ∃ target, field.reference = some target ∧
      ∃ type, catalog.type? target = some type ∧ type.app = app := by
    by_cases hp : id = pending
    · subst hp
      rw [fieldsOf_withFields_self] at hf
      obtain ⟨given, hm, rfl⟩ := List.mem_map.mp hf
      exact auditReferences_eq_ok_iff.mp h.replaced given hm hc
    · obtain ⟨type, ht, rfl⟩ := h.mem_keys_iff.mp hk
      rw [fieldsOf_withFields_of_ne hp] at hf
      exact auditReferences_eq_ok_iff.mp (h.kept type ht hp) field hf hc
  obtain ⟨target, hr, type, ht, ha⟩ := lead
  obtain ⟨-, rfl⟩ := type?_eq_some_iff.mp ht
  exact ⟨type.id, hr, h.mem_keys_iff.mpr ⟨type, mem_ownedBy_iff.mpr ⟨ht, ha⟩, rfl⟩⟩

/-- From a node a reference is an edge. -/
theorem edge_of_refers {source target : TypeId}
    (hk : source ∈ (catalog.referenceGraph app pending fields).edges.keys)
    (hr : (catalog.withFields pending fields).Refers source target) :
    (catalog.referenceGraph app pending fields).Edge source target := by
  obtain ⟨field, hf, hc, ht⟩ := id hr
  obtain ⟨other, ho, hm⟩ := h.exists_reference hk hf hc
  obtain rfl : target = other := Option.some.inj (ht.symm.trans ho)
  exact edge_referenceGraph_iff.mpr ⟨hk, hm, hr⟩

/-- A path from a node stays among the nodes. -/
theorem target_mem_keys {length : Nat} {source target : TypeId}
    (hp : (catalog.withFields pending fields).Path length source target)
    (hk : source ∈ (catalog.referenceGraph app pending fields).edges.keys) :
    target ∈ (catalog.referenceGraph app pending fields).edges.keys := by
  induction hp with
  | here => exact hk
  | step hr _ ih => exact ih (h.edge_of_refers hk hr).target_mem

/-- Without a cycle a path is shorter than the number of nodes that it could meet. -/
theorem length_lt_card_descendants
    (ha : (catalog.referenceGraph app pending fields).Acyclic) {length : Nat}
    {source target : TypeId} (hp : (catalog.withFields pending fields).Path length source target)
    (hk : source ∈ (catalog.referenceGraph app pending fields).edges.keys) :
    length < ((catalog.referenceGraph app pending fields).descendants source).card := by
  induction hp with
  | here =>
    exact Finset.card_pos.mpr ⟨_, Digraph.mem_descendants.mpr (.refl hk)⟩
  | step hr _ ih =>
    have he := h.edge_of_refers hk hr
    have fewer := Finset.card_lt_card (Digraph.descendants_ssubset he (ha _))
    have shorter := ih he.target_mem
    omega

/-- Without a cycle nothing is wrong on paths as long as there are types. -/
theorem resolvesWithin_of_acyclic
    (ha : (catalog.referenceGraph app pending fields).Acyclic) {id : TypeId}
    (hk : id ∈ (catalog.referenceGraph app pending fields).edges.keys) :
    (catalog.withFields pending fields).ResolvesWithin (catalog.ownedBy app).length id where
  exist := by
    intro steps _ target hp
    obtain ⟨type, ht, rfl⟩ := h.mem_keys_iff.mp (h.target_mem_keys hp hk)
    exact Option.ne_none_iff_exists'.mpr ⟨type, (mem_ownedBy_iff.mp ht).1⟩
  refer := by
    intro steps _ target hp field hf hc
    obtain ⟨other, ho, _⟩ := h.exists_reference (h.target_mem_keys hp hk) hf hc
    rw [ho]
    exact Option.some_ne_none other
  stop := by
    intro target hp
    have long := h.length_lt_card_descendants ha hp hk
    have few := Digraph.card_descendants_le (catalog.referenceGraph app pending fields) id
    have nodes : (catalog.referenceGraph app pending fields).edges.length ≤
        (catalog.ownedBy app).length := length_referenceGraph_le h.stored
    omega

end Settled

/-- Following edges is following references. -/
theorem exists_path_of_reaches {source target : TypeId}
    (hr : (catalog.referenceGraph app pending fields).Reaches source target) :
    ∃ length, (catalog.withFields pending fields).Path length source target := by
  induction hr with
  | refl => exact ⟨0, .here _⟩
  | step he _ ih =>
    obtain ⟨length, hp⟩ := ih
    exact ⟨length + 1, .step (edge_referenceGraph_iff.mp he).2.2 hp⟩

/-- A node on a cycle of the graph reaches a cycle of references. -/
theorem reachesCycle_of_onCycle {id : TypeId}
    (hc : (catalog.referenceGraph app pending fields).OnCycle id) :
    (catalog.withFields pending fields).ReachesCycle id := by
  obtain ⟨successor, he, hr⟩ := hc
  obtain ⟨length, hp⟩ := exists_path_of_reaches hr
  exact ⟨0, length, id, .here id, .step (edge_referenceGraph_iff.mp he).2.2 hp⟩

/-- Where the references of an application's types lead to its own types, replacing the
fields of one of them passes the check for cycles exactly if afterwards every one of them
unfolds under the number of them as the bound. -/
theorem auditCycles_ok_iff_all_unfold (catalog : Catalog) (app : AppId) (pending : TypeId)
    (fields : List TypeField) (hp : ∃ type ∈ catalog.ownedBy app, type.id = pending)
    (hf : catalog.auditReferences app fields = .ok ())
    (ho : ∀ type ∈ catalog.ownedBy app, type.id ≠ pending →
      catalog.auditReferences app (catalog.fieldsOf type.id) = .ok ()) :
    catalog.auditCycles app (some pending) fields = .ok () ↔
      ∀ type ∈ (catalog.withFields pending fields).ownedBy app, ∃ schema,
        (catalog.withFields pending fields).schemaOf
          ((catalog.withFields pending fields).ownedBy app).length type.id = .ok schema := by
  have settled : catalog.Settled app pending fields := ⟨hp, hf, ho⟩
  simp only [auditCycles_eq_ok_iff, Option.getD_some, ownedBy_withFields, exists_schemaOf_iff]
  constructor
  · intro ha type ht
    exact settled.resolvesWithin_of_acyclic ha (settled.mem_keys_iff.mpr ⟨type, ht, rfl⟩)
  · intro all id hc
    obtain ⟨type, ht, rfl⟩ := settled.mem_keys_iff.mp hc.node_mem
    exact not_resolvesWithin_of_reachesCycle (reachesCycle_of_onCycle hc) _ (all type ht)

/-- Orders have lines, which have no fields yet. -/
def shop : Catalog where
  types := [⟨⟨1⟩, ⟨7⟩, "Order", ""⟩, ⟨⟨2⟩, ⟨7⟩, "Line", ""⟩]
  fields := [(TypeField.custom ⟨1⟩ ⟨1⟩ "lines" ⟨2⟩).asArray]

/-- A line tells how many pieces are ordered. -/
def quantity : TypeField := { id := ⟨2⟩, owner := ⟨2⟩, name := "quantity", kind := .number }

theorem auditCycles_ok_iff_all_unfold_shop :
    (∃ type ∈ shop.ownedBy ⟨7⟩, type.id = ⟨2⟩) ∧
    shop.auditReferences ⟨7⟩ [quantity] = .ok () ∧
    (∀ type ∈ shop.ownedBy ⟨7⟩, type.id ≠ ⟨2⟩ →
      shop.auditReferences ⟨7⟩ (shop.fieldsOf type.id) = .ok ()) ∧
    ∀ type ∈ (shop.withFields ⟨2⟩ [quantity]).ownedBy ⟨7⟩, ∃ schema,
      (shop.withFields ⟨2⟩ [quantity]).schemaOf 2 type.id = .ok schema := by
  have stored : ∃ type ∈ shop.ownedBy ⟨7⟩, type.id = ⟨2⟩ := by decide
  have replaced : shop.auditReferences ⟨7⟩ [quantity] = .ok () := rfl
  have kept : ∀ type ∈ shop.ownedBy ⟨7⟩, type.id ≠ ⟨2⟩ →
      shop.auditReferences ⟨7⟩ (shop.fieldsOf type.id) = .ok () := by decide
  have passes : shop.auditCycles ⟨7⟩ (some ⟨2⟩) [quantity] = .ok () := by decide
  have unfold := auditCycles_ok_iff_all_unfold shop ⟨7⟩ ⟨2⟩ [quantity] stored replaced kept
  exact ⟨stored, replaced, kept, unfold.mp passes⟩

end SchemaGate.Catalog
