import SchemaGate.Proofs.Catalog.Locality

/-!
# Stored records behind a schema

Of the records that a catalog is made of, the schema of a type depends on those about the types
that it reaches within the bound: on the last type record with each of their identifiers, of it
on the description alone, and on the components of their own fields, in the order of these
fields. Where records stand between records about something else does not matter, and records
about types that are not reached may be anything.
-/

namespace SchemaGate

namespace StoredRecords

/-- The last type record with an identifier. -/
def lastType? (records : StoredRecords) (id : TypeId) : Option CustomType :=
  (records.types.filter fun type => type.id == id).getLast?

/-- The field records of a type, in input order. -/
def ownFields (records : StoredRecords) (id : TypeId) : List TypeField :=
  records.fields.filter fun field => field.owner == id

/-- Two lists of records say the same about a type: it is missing from both or the last record
of it has the same description, and its own fields have the same components in the same order. -/
structure AgreeAt (first second : StoredRecords) (id : TypeId) : Prop where
  /-- It is missing from both or described alike. -/
  described : (first.lastType? id).map CustomType.description =
    (second.lastType? id).map CustomType.description
  /-- Its fields have the same components. -/
  components : (first.ownFields id).map TypeField.component =
    (second.ownFields id).map TypeField.component

variable {records first second : StoredRecords} {id : TypeId}

/-- Records agree about a type if they hold the same records of it. -/
theorem AgreeAt.of_eq (types : first.lastType? id = second.lastType? id)
    (fields : first.ownFields id = second.ownFields id) : first.AgreeAt second id where
  described := by rw [types]
  components := by rw [fields]

/-- Replacing what a filter drops does not matter. -/
theorem filter_replace {α : Type} {p : α → Bool} {front old back new : List α}
    (dropped : ∀ item ∈ old ++ new, ¬ p item = true) :
    (front ++ old ++ back).filter p = (front ++ new ++ back).filter p := by
  have none : (old ++ new).filter p = [] := List.filter_eq_nil_iff.mpr dropped
  obtain ⟨ofOld, ofNew⟩ := List.append_eq_nil_iff.mp ((List.filter_append old new).symm.trans none)
  rw [List.filter_append, List.filter_append, List.filter_append, List.filter_append, ofOld, ofNew]

/-- Type records with other identifiers do not matter. -/
theorem lastType?_replace {front old back new : List CustomType} {fields others : List TypeField}
    (apart : ∀ type ∈ old ++ new, type.id ≠ id) :
    lastType? ⟨front ++ old ++ back, fields⟩ id =
      lastType? ⟨front ++ new ++ back, others⟩ id := by
  have dropped : ∀ type ∈ old ++ new, ¬ (type.id == id) = true :=
    fun type hm same => apart type hm (beq_iff_eq.mp same)
  exact congrArg List.getLast? (filter_replace dropped)

/-- Field records of other types do not matter. -/
theorem ownFields_replace {front old back new : List TypeField} {types others : List CustomType}
    (apart : ∀ field ∈ old ++ new, field.owner ≠ id) :
    ownFields ⟨types, front ++ old ++ back⟩ id = ownFields ⟨others, front ++ new ++ back⟩ id := by
  have dropped : ∀ field ∈ old ++ new, ¬ (field.owner == id) = true :=
    fun field hm same => apart field hm (beq_iff_eq.mp same)
  exact filter_replace dropped

end StoredRecords

namespace Catalog

open StoredRecords

variable {records first second : StoredRecords} {limit : Nat} {id : TypeId}

/-- The latest types hold the last record of each identifier. -/
theorem find?_latest (types : List CustomType) (id : TypeId) :
    (latest types).find? (fun type => type.id == id) =
      (types.filter fun type => type.id == id).getLast? := by
  induction types with
  | nil => rfl
  | cons type rest ih =>
    by_cases hi : type.id = id
    · subst hi
      have kept : (type :: rest).filter (fun other => other.id == type.id) =
          type :: rest.filter fun other => other.id == type.id := by simp
      rw [kept, List.getLast?_cons, ← ih, latest]
      -- A record is dropped exactly if a later one has its identifier.
      split
      · next later =>
        obtain ⟨other, hm, same⟩ := List.any_eq_true.mp later
        have present : rest.filter (fun other => other.id == type.id) ≠ [] :=
          List.ne_nil_of_mem (List.mem_filter.mpr ⟨hm, same⟩)
        rw [ih, List.getLast?_eq_some_getLast present, Option.getD_some]
      · next alone =>
        have absent : rest.filter (fun other => other.id == type.id) = [] := by
          rw [List.filter_eq_nil_iff]
          exact fun other hm same => alone (List.any_eq_true.mpr ⟨other, hm, same⟩)
        rw [ih, absent]
        simp
    · have other : (type :: rest).filter (fun type => type.id == id) =
          rest.filter fun type => type.id == id := by simp [hi]
      rw [other, ← ih, latest]
      split
      · rfl
      · simp [hi]

theorem type?_ofRecords (records : StoredRecords) (id : TypeId) :
    (ofRecords records).type? id = records.lastType? id :=
  find?_latest records.types id

/-- The order of type records with distinct identifiers does not matter. -/
theorem lastType?_of_perm (hn : (first.types.map CustomType.id).Nodup)
    (hp : second.types.Perm first.types) (id : TypeId) :
    first.lastType? id = second.lastType? id := by
  have hn' : (second.types.map CustomType.id).Nodup := (hp.map CustomType.id).nodup_iff.mpr hn
  apply Option.ext
  intro type
  rw [← type?_ofRecords, ← type?_ofRecords, type?_eq_some_iff, type?_eq_some_iff,
    types_ofRecords hn, types_ofRecords hn', hp.mem_iff]

/-- Catalogs of records that agree about a type hold the same of it. -/
theorem sameAt_ofRecords (h : first.AgreeAt second id) :
    (ofRecords first).SameAt (ofRecords second) id where
  described := by
    rw [type?_ofRecords, type?_ofRecords]
    exact h.described
  components := h.components

/-- A type is reached within a bound if at most as many references lead to it. -/
def ReachesWithin (catalog : Catalog) (limit : Nat) (id target : TypeId) : Prop :=
  ∃ steps ≤ limit, catalog.Path steps id target

/-- Records that agree about the types that are reached give the same schema or error. -/
theorem schemaOf_ofRecords_congr
    (h : ∀ target, (ofRecords first).ReachesWithin limit id target →
      first.AgreeAt second target) :
    (ofRecords first).schemaOf limit id = (ofRecords second).schemaOf limit id := by
  have agree : ∀ steps ≤ limit, ∀ target, (ofRecords first).Path steps id target →
      (ofRecords first).SameAt (ofRecords second) target := by
    intro steps within target path
    exact sameAt_ofRecords (h target ⟨steps, within, path⟩)
  exact unfold_congr agree

/-- The schema of a type under a bound, or the error, depends on no records but those about the
types that it reaches within the bound, and of these on the description in the last type record
and on the components of the field records, in their order. So type records of distinct
identifiers may change places, field records may change places with those of other types, and
records about types that are not reached may be replaced by any others, or by none. -/
theorem schemas_read_reached_records :
    (∀ limit id (first second : StoredRecords),
      (∀ target, (ofRecords first).ReachesWithin limit id target →
        first.AgreeAt second target) →
      (ofRecords first).schemaOf limit id = (ofRecords second).schemaOf limit id) ∧
    (∀ first second : StoredRecords, (first.types.map CustomType.id).Nodup →
      second.types.Perm first.types →
      (∀ owner, first.ownFields owner = second.ownFields owner) → ∀ limit id,
      (ofRecords first).schemaOf limit id = (ofRecords second).schemaOf limit id) ∧
    ∀ limit id (types oldTypes newTypes moreTypes : List CustomType)
      (fields oldFields newFields moreFields : List TypeField) (records : StoredRecords),
      records = ⟨types ++ oldTypes ++ moreTypes, fields ++ oldFields ++ moreFields⟩ →
      (∀ type ∈ oldTypes ++ newTypes, ¬ (ofRecords records).ReachesWithin limit id type.id) →
      (∀ field ∈ oldFields ++ newFields,
        ¬ (ofRecords records).ReachesWithin limit id field.owner) →
      (ofRecords records).schemaOf limit id =
        (ofRecords ⟨types ++ newTypes ++ moreTypes,
          fields ++ newFields ++ moreFields⟩).schemaOf limit id := by
  refine ⟨fun limit id first second => schemaOf_ofRecords_congr, ?_, ?_⟩
  · intro first second nodup moved own limit id
    apply schemaOf_ofRecords_congr
    intro target _
    exact .of_eq (lastType?_of_perm nodup moved target) (own target)
  · rintro limit id types oldTypes newTypes moreTypes fields oldFields newFields moreFields records
      rfl apartTypes apartFields
    apply schemaOf_ofRecords_congr
    intro target reached
    apply AgreeAt.of_eq
    · apply lastType?_replace
      rintro type hm rfl
      exact apartTypes type hm reached
    · apply ownFields_replace
      rintro field hm rfl
      exact apartFields field hm reached

/-- A route has stops, which have names. -/
def routes : StoredRecords where
  types := [⟨⟨1⟩, ⟨7⟩, "Route", "a way"⟩, ⟨⟨2⟩, ⟨7⟩, "Stop", "a place"⟩]
  fields := [(TypeField.custom ⟨1⟩ ⟨1⟩ "stops" ⟨2⟩).asArray,
    { id := ⟨2⟩, owner := ⟨1⟩, name := "line", kind := .number },
    { id := ⟨3⟩, owner := ⟨2⟩, name := "name", kind := .string }]

/-- A driver, who drives what does not exist. -/
def driver : CustomType := ⟨⟨3⟩, ⟨7⟩, "Driver", ""⟩

/-- The same routes, with an outdated record, other names and places of records, and a driver. -/
def movedRoutes : StoredRecords where
  types := [⟨⟨2⟩, ⟨7⟩, "Halt", "a place"⟩, ⟨⟨1⟩, ⟨7⟩, "Route", "outdated"⟩,
    driver, ⟨⟨1⟩, ⟨8⟩, "Way", "a way"⟩]
  fields := [{ id := ⟨3⟩, owner := ⟨2⟩, name := "name", kind := .string },
    (TypeField.custom ⟨1⟩ ⟨1⟩ "stops" ⟨2⟩).asArray, TypeField.custom ⟨4⟩ driver.id "drives" ⟨9⟩,
    { id := ⟨5⟩, owner := ⟨1⟩, name := "line", kind := .number }]

/-- What stops unfold to. -/
def stopSchema : Schema where
  label := ()
  kind := .object
  description := "a place"
  properties := [("name", .bare .string)]

/-- What routes unfold to. -/
def routeSchema : Schema where
  label := ()
  kind := .object
  description := "a way"
  properties := [("stops", .arrayOf stopSchema), ("line", .bare .number)]

/-- From a route nothing is reached but routes and stops. -/
theorem reached_routes {steps : Nat} {source target : TypeId}
    (h : (ofRecords routes).Path steps source target) (hs : source = ⟨1⟩ ∨ source = ⟨2⟩) :
    target = ⟨1⟩ ∨ target = ⟨2⟩ := by
  induction h with
  | here => exact hs
  | step refers _ ih =>
    obtain ⟨field, hf, hk, hr⟩ := refers
    have own : field ∈ routes.fields := (List.mem_filter.mp hf).1
    apply ih
    simp only [routes, List.mem_cons, List.not_mem_nil, or_false] at own
    rcases own with rfl | rfl | rfl
    · exact .inr (Option.some.inj hr).symm
    · cases hk
    · cases hk

theorem schemas_read_reached_records_routes :
    (∀ target, (ofRecords routes).ReachesWithin 2 ⟨1⟩ target →
      routes.AgreeAt movedRoutes target) ∧
    (ofRecords movedRoutes).schemaOf 2 ⟨1⟩ = .ok routeSchema ∧
    (ofRecords routes).schemaOf 2 ⟨1⟩ = (ofRecords movedRoutes).schemaOf 2 ⟨1⟩ ∧
    (ofRecords routes).schemaOf 2 ⟨1⟩ =
      (ofRecords { routes with types := routes.types.reverse }).schemaOf 2 ⟨1⟩ ∧
    (ofRecords routes).schemaOf 2 ⟨1⟩ =
      (ofRecords { routes with types := routes.types ++ [driver] }).schemaOf 2 ⟨1⟩ := by
  obtain ⟨reads, moves, replaces⟩ := schemas_read_reached_records
  have agree : ∀ target, (ofRecords routes).ReachesWithin 2 ⟨1⟩ target →
      routes.AgreeAt movedRoutes target := by
    rintro target ⟨steps, -, path⟩
    rcases reached_routes path (.inl rfl) with rfl | rfl
    · exact ⟨by decide, by decide⟩
    · exact ⟨by decide, by decide⟩
  have apart : ∀ type ∈ [] ++ [driver], ¬ (ofRecords routes).ReachesWithin 2 ⟨1⟩ type.id := by
    rintro type hm ⟨steps, -, path⟩
    obtain rfl := List.mem_singleton.mp hm
    rcases reached_routes path (.inl rfl) with h | h
    · exact absurd h (by decide)
    · exact absurd h (by decide)
  have added := replaces 2 ⟨1⟩ routes.types [] [driver] [] routes.fields [] [] [] routes
    (by simp) apart (by simp)
  refine ⟨agree, rfl, reads 2 ⟨1⟩ routes movedRoutes agree, ?_, ?_⟩
  · exact moves routes { routes with types := routes.types.reverse } (by decide)
      (List.reverse_perm routes.types) (fun _ => rfl) 2 ⟨1⟩
  · simpa using added

end Catalog

end SchemaGate
