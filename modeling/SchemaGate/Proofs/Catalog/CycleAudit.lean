import SchemaGate.Proofs.Catalog.ReferenceGraph
import SchemaGate.Proofs.Digraph.Leftover

/-!
# What the check for cycles reads

The outcome of the check for cycles, down to the order of the types that it lists, depends on
sets alone: the identifiers of the application's types, what each of them but the pending one
refers to, and what the given fields refer to. The reference graph has its nodes in rising order
whatever the order of the types, and what elimination leaves over does not depend on the order or
the number of edges. So records may change places, references may be repeated, fields may change
in everything but their references, and records of other applications may be anything.
-/

namespace SchemaGate

/-- References of fields in a row are those of each one. -/
theorem referencesOf_append (front back : List TypeField) :
    referencesOf (front ++ back) = referencesOf front ++ referencesOf back := by
  simp only [referencesOf, List.filter_append, List.filterMap_append]

/-- Fields with the same references, one by one, have the same references. -/
theorem referencesOf_congr {fields others : List TypeField}
    (h : List.Forall₂ (fun field other => referencesOf [field] = referencesOf [other])
      fields others) : referencesOf fields = referencesOf others := by
  induction h with
  | nil => rfl
  | @cons field other fields others same _ ih =>
    rw [← List.singleton_append, referencesOf_append, same, ih, ← referencesOf_append,
      List.singleton_append]

/-- Replacing a part of a list does not matter to what is in neither part. -/
theorem mem_replace_iff {α : Type} {front old back new : List α} {item : α}
    (out : item ∉ old ++ new) : item ∈ front ++ old ++ back ↔ item ∈ front ++ new ++ back := by
  obtain ⟨notOld, notNew⟩ := not_or.mp (mt List.mem_append.mpr out)
  simp only [List.mem_append, notOld, notNew]

namespace Catalog

/-- Two catalogs have the same types of an application, which refer to the same types, the
pending one aside. -/
structure SameReferences (app : AppId) (pending : TypeId) (first second : Catalog) : Prop where
  /-- They have types of the application under the same identifiers. -/
  types : ∀ id, (∃ type ∈ first.ownedBy app, type.id = id) ↔
    ∃ type ∈ second.ownedBy app, type.id = id
  /-- A type that is not pending refers to the same types in both. -/
  references : ∀ type ∈ first.ownedBy app, type.id ≠ pending →
    ∀ target, first.Refers type.id target ↔ second.Refers type.id target

namespace SameReferences

variable {app : AppId} {pending : TypeId} {first second : Catalog} {fields others : List TypeField}

/-- The nodes of the reference graph are the same, in the same order. -/
theorem keys_eq (same : SameReferences app pending first second) :
    (first.referenceGraph app pending fields).edges.keys =
      (second.referenceGraph app pending others).edges.keys := by
  have rising : Id.rising ((first.ownedBy app).map CustomType.id) =
      Id.rising ((second.ownedBy app).map CustomType.id) := by
    apply Id.rising_congr
    intro id
    rw [List.mem_map, List.mem_map]
    exact same.types id
  rw [keys_referenceGraph, keys_referenceGraph, referenceNodes, referenceNodes, rising]

/-- A node refers to the same types once the fields are replaced. -/
theorem refers_withFields (same : SameReferences app pending first second)
    (given : ∀ target, target ∈ referencesOf fields ↔ target ∈ referencesOf others)
    {source : TypeId} (hk : source ∈ (first.referenceGraph app pending fields).edges.keys)
    (target : TypeId) : (first.withFields pending fields).Refers source target ↔
      (second.withFields pending others).Refers source target := by
  rw [refers_withFields_iff, refers_withFields_iff]
  by_cases hp : source = pending
  · rw [if_pos hp, if_pos hp]
    exact given target
  · obtain ⟨type, ht, rfl⟩ := (mem_keys_referenceGraph_iff.mp hk).resolve_right hp
    rw [if_neg hp, if_neg hp, mem_referencesOf_iff, mem_referencesOf_iff]
    exact same.references type ht hp target

/-- The edges of the reference graph are the same. -/
theorem edge_iff (same : SameReferences app pending first second)
    (given : ∀ target, target ∈ referencesOf fields ↔ target ∈ referencesOf others)
    (source target : TypeId) : (first.referenceGraph app pending fields).Edge source target ↔
      (second.referenceGraph app pending others).Edge source target := by
  have nodes : (first.referenceGraph app pending fields).edges.keys =
      (second.referenceGraph app pending others).edges.keys := same.keys_eq
  rw [edge_referenceGraph_iff, edge_referenceGraph_iff, ← nodes]
  refine and_congr_right fun hs => and_congr_right fun _ => ?_
  exact same.refers_withFields given hs target

end SameReferences

/-- The check for cycles cannot tell catalogs with the same references apart, nor fields with the
same references. -/
theorem auditCycles_congr {app : AppId} {pending : Option TypeId} {first second : Catalog}
    {fields others : List TypeField}
    (same : SameReferences app (pending.getD placeholder) first second)
    (given : ∀ target, target ∈ referencesOf fields ↔ target ∈ referencesOf others) :
    first.auditCycles app pending fields = second.auditCycles app pending others := by
  have left : (first.referenceGraph app (pending.getD placeholder) fields).leftover =
      (second.referenceGraph app (pending.getD placeholder) others).leftover :=
    Digraph.leftover_congr same.keys_eq (same.edge_iff given)
  rw [auditCycles, auditCycles, left]

/-- The types of an application are its records, if identifiers are distinct. -/
theorem mem_ownedBy_ofRecords_iff {records : StoredRecords} {app : AppId} {type : CustomType}
    (hn : (records.types.map CustomType.id).Nodup) :
    type ∈ (ofRecords records).ownedBy app ↔ type ∈ records.types ∧ type.app = app := by
  rw [ownedBy, types_ofRecords hn, List.mem_filter, beq_iff_eq]

/-- What a type refers to is told by its own field records. -/
theorem refers_ofRecords_iff {records : StoredRecords} {source target : TypeId} :
    (ofRecords records).Refers source target ↔
      ∃ field ∈ records.fields, field.owner = source ∧ target ∈ referencesOf [field] := by
  simp only [Refers, fieldsOf, ofRecords, List.mem_filter, beq_iff_eq, and_assoc,
    mem_referencesOf_iff, List.mem_singleton, exists_eq_left]

/-- Field records are told apart by the owner and the reference alone. -/
theorem refers_ofRecords_congr {types others : List CustomType} {fields changed : List TypeField}
    {source : TypeId}
    (h : List.Forall₂ (fun field other => field.owner = other.owner ∧
      referencesOf [field] = referencesOf [other]) fields changed) (target : TypeId) :
    (ofRecords ⟨types, fields⟩).Refers source target ↔
      (ofRecords ⟨others, changed⟩).Refers source target := by
  rw [refers_ofRecords_iff, refers_ofRecords_iff]
  induction h with
  | nil => simp
  | cons same _ ih =>
    dsimp only at ih ⊢
    rw [List.exists_mem_cons_iff, List.exists_mem_cons_iff, ih, same.1, same.2]

/-- Records under distinct identifiers have the same references if those about the application
do. -/
theorem sameReferences_ofRecords {app : AppId} {pending : TypeId} {first second : StoredRecords}
    (hf : (first.types.map CustomType.id).Nodup) (hs : (second.types.map CustomType.id).Nodup)
    (types : ∀ type, type.app = app → (type ∈ first.types ↔ type ∈ second.types))
    (references : ∀ type ∈ first.types, type.app = app → type.id ≠ pending →
      ∀ target, (ofRecords first).Refers type.id target ↔
        (ofRecords second).Refers type.id target) :
    SameReferences app pending (ofRecords first) (ofRecords second) where
  types := by
    intro id
    refine exists_congr fun type => and_congr_left fun _ => ?_
    rw [mem_ownedBy_ofRecords_iff hf, mem_ownedBy_ofRecords_iff hs]
    exact and_congr_left (types type)
  references := by
    intro type hm
    obtain ⟨ht, ha⟩ := (mem_ownedBy_ofRecords_iff hf).mp hm
    exact references type ht ha

/-- The check for cycles, with the list of types that it gives, depends on the identifiers of the
application's types, on the set of types that each of them but the pending one refers to, on the
pending identifier, and on the set of types that the given fields refer to. So type records of
distinct identifiers, field records and given fields may change places; fields may change in all
but their owners and their references; fields without a new reference may be added; and types of
other applications, fields that belong to no type of the application and the stored fields of
the pending type may be replaced by any others, or by none. -/
theorem cycle_audit_reads_references (app : AppId) (pending : Option TypeId) :
    (∀ (first second : Catalog) (given others : List TypeField),
      SameReferences app (pending.getD placeholder) first second →
      (∀ target, target ∈ referencesOf given ↔ target ∈ referencesOf others) →
      first.auditCycles app pending given = second.auditCycles app pending others) ∧
    (∀ (first second : StoredRecords) (given others : List TypeField),
      (first.types.map CustomType.id).Nodup → first.types.Perm second.types →
      first.fields.Perm second.fields → given.Perm others →
      (ofRecords first).auditCycles app pending given =
        (ofRecords second).auditCycles app pending others) ∧
    (∀ (types : List CustomType) (fields changed given others : List TypeField),
      List.Forall₂ (fun field other => field.owner = other.owner ∧
        referencesOf [field] = referencesOf [other]) fields changed →
      List.Forall₂ (fun field other => referencesOf [field] = referencesOf [other])
        given others →
      (ofRecords ⟨types, fields⟩).auditCycles app pending given =
        (ofRecords ⟨types, changed⟩).auditCycles app pending others) ∧
    (∀ (types : List CustomType) (fields more given again : List TypeField),
      (∀ field ∈ more, ∀ target ∈ referencesOf [field], ∃ other ∈ fields,
        other.owner = field.owner ∧ target ∈ referencesOf [other]) →
      (∀ target ∈ referencesOf again, target ∈ referencesOf given) →
      (ofRecords ⟨types, fields ++ more⟩).auditCycles app pending (given ++ again) =
        (ofRecords ⟨types, fields⟩).auditCycles app pending given) ∧
    ∀ (types oldTypes newTypes moreTypes : List CustomType)
      (fields oldFields newFields moreFields given : List TypeField)
      (first second : StoredRecords),
      first = ⟨types ++ oldTypes ++ moreTypes, fields ++ oldFields ++ moreFields⟩ →
      second = ⟨types ++ newTypes ++ moreTypes, fields ++ newFields ++ moreFields⟩ →
      (first.types.map CustomType.id).Nodup → (second.types.map CustomType.id).Nodup →
      (∀ type ∈ oldTypes ++ newTypes, type.app ≠ app) →
      (∀ field ∈ oldFields ++ newFields, field.owner = pending.getD placeholder ∨
        ∀ type ∈ first.types, type.app = app → type.id ≠ field.owner) →
      (ofRecords first).auditCycles app pending given =
        (ofRecords second).auditCycles app pending given := by
  refine ⟨fun first second given others same => auditCycles_congr same, ?_, ?_, ?_, ?_⟩
  · intro first second given others nodup types fields moved
    have nodup' := (types.map CustomType.id).nodup_iff.mp nodup
    refine auditCycles_congr (sameReferences_ofRecords nodup nodup' ?_ ?_) ?_
    · exact fun _ _ => types.mem_iff
    · intro type _ _ _ target
      rw [refers_ofRecords_iff, refers_ofRecords_iff]
      exact exists_congr fun field => and_congr_left fun _ => fields.mem_iff
    · intro target
      rw [mem_referencesOf_iff, mem_referencesOf_iff]
      exact exists_congr fun field => and_congr_left fun _ => moved.mem_iff
  · intro types fields changed given others stored passed
    refine auditCycles_congr ⟨fun _ => Iff.rfl, ?_⟩ ?_
    · exact fun _ _ _ target => refers_ofRecords_congr stored target
    · intro target
      rw [referencesOf_congr passed]
  · intro types fields more given again known knownGiven
    refine auditCycles_congr ⟨fun _ => Iff.rfl, ?_⟩ ?_
    · intro type _ _ target
      rw [refers_ofRecords_iff, refers_ofRecords_iff]
      constructor
      · rintro ⟨field, hm, ho, ht⟩
        rcases List.mem_append.mp hm with hm | hm
        · exact ⟨field, hm, ho, ht⟩
        · obtain ⟨other, hother, same, ht⟩ := known field hm target ht
          exact ⟨other, hother, same.trans ho, ht⟩
      · rintro ⟨field, hm, ho, ht⟩
        exact ⟨field, List.mem_append_left more hm, ho, ht⟩
    · intro target
      rw [referencesOf_append, List.mem_append]
      exact or_iff_left_of_imp (knownGiven target)
  · rintro types oldTypes newTypes moreTypes fields oldFields newFields moreFields given
      first second rfl rfl nodup nodup' foreign apart
    refine auditCycles_congr (sameReferences_ofRecords nodup nodup' ?_ ?_) fun _ => Iff.rfl
    · intro type ha
      exact mem_replace_iff fun hm => foreign type hm ha
    · intro type ht ha hp target
      rw [refers_ofRecords_iff, refers_ofRecords_iff]
      refine exists_congr fun field => and_congr_left fun ⟨ho, _⟩ => mem_replace_iff fun hm => ?_
      rcases apart field hm with owned | none
      · exact hp (ho.symm.trans owned)
      · exact none type ht ha ho.symm

/-- Teams have members, and members belong to teams and have a home. -/
def staff : StoredRecords where
  types := [⟨⟨1⟩, ⟨7⟩, "Team", ""⟩, ⟨⟨2⟩, ⟨7⟩, "Person", ""⟩, ⟨⟨3⟩, ⟨7⟩, "Address", ""⟩]
  fields := [(TypeField.custom ⟨1⟩ ⟨1⟩ "members" ⟨2⟩).asArray, TypeField.custom ⟨2⟩ ⟨2⟩ "team" ⟨1⟩,
    TypeField.custom ⟨3⟩ ⟨2⟩ "home" ⟨3⟩]

/-- The same staff under other field names, with a field that tells a street. -/
def renamedStaff : List TypeField :=
  [TypeField.custom ⟨1⟩ ⟨1⟩ "people" ⟨2⟩, (TypeField.custom ⟨2⟩ ⟨2⟩ "teams" ⟨1⟩).asArray,
    (TypeField.custom ⟨3⟩ ⟨2⟩ "address" ⟨3⟩).asRequired]

/-- A type that is being created: an office has a head, who is a person. -/
def office : List TypeField := [TypeField.custom ⟨4⟩ placeholder "head" ⟨2⟩]

/-- A person may have a second home. -/
def secondHome : TypeField := TypeField.custom ⟨5⟩ ⟨2⟩ "second home" ⟨3⟩

/-- A machine belongs to another application, though it refers to a team. -/
def machine : CustomType := ⟨⟨9⟩, ⟨8⟩, "Machine", ""⟩

/-- Fields of no type of the application: one of the machine, and an outdated one that is stored
for the type that is being created. -/
def strayFields : List TypeField :=
  [TypeField.custom ⟨6⟩ machine.id "owner" ⟨1⟩, TypeField.custom ⟨7⟩ placeholder "self" placeholder]

/-- The cycle of teams and members is found, and with it the homes behind it, however the records
are put. -/
theorem cycle_audit_reads_references_staff :
    (ofRecords staff).auditCycles ⟨7⟩ none office = .error (.cycle [⟨1⟩, ⟨2⟩, ⟨3⟩]) ∧
    (ofRecords staff).auditCycles ⟨7⟩ none office =
      (ofRecords ⟨staff.types.reverse, staff.fields.reverse⟩).auditCycles ⟨7⟩ none office ∧
    (ofRecords staff).auditCycles ⟨7⟩ none office =
      (ofRecords ⟨staff.types, renamedStaff⟩).auditCycles ⟨7⟩ none office ∧
    (ofRecords ⟨staff.types, staff.fields ++ [secondHome]⟩).auditCycles ⟨7⟩ none
        (office ++ office) = (ofRecords staff).auditCycles ⟨7⟩ none office ∧
    (ofRecords staff).auditCycles ⟨7⟩ none office =
      (ofRecords ⟨staff.types ++ [machine], staff.fields ++ strayFields⟩).auditCycles ⟨7⟩ none
        office ∧
    (ofRecords staff).auditCycles ⟨7⟩ none office =
      (ofRecords ⟨staff.types, secondHome :: staff.fields⟩).auditCycles ⟨7⟩ none
        (office ++ office) := by
  obtain ⟨reads, moves, changes, repeats, replaces⟩ := cycle_audit_reads_references ⟨7⟩ none
  refine ⟨by decide, ?_, ?_, ?_, ?_, ?_⟩
  · exact moves staff ⟨staff.types.reverse, staff.fields.reverse⟩ office office (by decide)
      (List.reverse_perm _).symm (List.reverse_perm _).symm (.refl office)
  · refine changes staff.types staff.fields renamedStaff office office ?_ ?_
    · simp [staff, renamedStaff, referencesOf, TypeField.custom, TypeField.asArray,
        TypeField.asRequired]
    · simp
  · refine repeats staff.types staff.fields [secondHome] office office ?_ fun _ ht => ht
    decide
  · refine replaces staff.types [] [machine] [] staff.fields [] strayFields [] office _ _ ?_ ?_
      ?_ ?_ ?_ ?_
    · simp
    · simp
    · decide
    · decide
    · decide
    · decide
  · refine reads _ _ office (office ++ office) ⟨fun _ => Iff.rfl, ?_⟩ ?_
    · intro type _ _ target
      rw [refers_ofRecords_iff, refers_ofRecords_iff, List.exists_mem_cons_iff]
      refine (or_iff_right_of_imp ?_).symm
      rintro ⟨owned, told⟩
      exact ⟨TypeField.custom ⟨3⟩ ⟨2⟩ "home" ⟨3⟩, by decide, owned, told⟩
    · intro target
      simp [referencesOf_append]

end Catalog
end SchemaGate
