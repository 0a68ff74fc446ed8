import Mathlib.Data.Nat.Find
import SchemaGate.Catalog.Unfolding

/-!
# The bound on nested references

A larger bound keeps every schema that was found under a smaller one: success is passed on from the
schemas of referenced types to that of a component and from the components to the type, and at the
bound itself only types without fields succeed. So for each type there is one schema at most, and
the bounds under which it is found are all those from the least one on.
-/

namespace SchemaGate

namespace Component

/-- The schema of a component is kept if the schemas of types are. -/
theorem schema_eq_ok_of_refer {component : Component}
    {refer other : TypeId → Except UnfoldError Schema} {property : Schema}
    (kept : ∀ target element, refer target = .ok element → other target = .ok element)
    (h : component.schema refer = .ok property) : component.schema other = .ok property := by
  obtain ⟨element, found, placed⟩ := schema_eq_ok_iff.mp h
  refine schema_eq_ok_iff.mpr ⟨element, ?_, placed⟩
  unfold Component.element at found ⊢
  split at found
  · exact found
  · exact found
  · exact found
  · cases reference : component.reference with
    | none => rw [reference] at found; cases found
    | some target =>
      rw [reference] at found
      exact kept target element found

/-- The whole object is kept if the schemas of components are. -/
theorem addAll_eq_ok_of_schemas {schemas others : Component → Except UnfoldError Schema}
    {components : List Component} {object whole : Schema}
    (kept : ∀ component property, schemas component = .ok property →
      others component = .ok property)
    (h : addAll schemas object components = .ok whole) :
    addAll others object components = .ok whole := by
  induction components generalizing object with
  | nil => exact h
  | cons component rest ih =>
    obtain ⟨property, found, later⟩ := addAll_cons_eq_ok_iff.mp h
    exact addAll_cons_eq_ok_iff.mpr ⟨property, kept component property found, ih later⟩

end Component

namespace Catalog

variable {catalog : Catalog} {id : TypeId} {schema : Schema}

/-- The object of a type is kept if the schemas of components are. -/
theorem objectOf_eq_ok_of_schemas {schemas others : Component → Except UnfoldError Schema}
    (kept : ∀ component property, schemas component = .ok property →
      others component = .ok property)
    (h : catalog.objectOf schemas id = .ok schema) :
    catalog.objectOf others id = .ok schema := by
  unfold objectOf at h ⊢
  cases found : catalog.type? id with
  | none => rw [found] at h; cases h
  | some type =>
    rw [found] at h
    exact Component.addAll_eq_ok_of_schemas kept h

/-- More references that may be followed, under any bound, keep the schema. -/
theorem unfold_eq_ok_of_le {limit other slack more : Nat} (room : slack ≤ more)
    (h : catalog.unfold limit slack id = .ok schema) :
    catalog.unfold other more id = .ok schema := by
  induction slack generalizing more id schema with
  | zero =>
    -- At the bound no component has a schema, so none was used.
    have kept : ∀ others : Component → Except UnfoldError Schema,
        catalog.objectOf others id = .ok schema :=
      fun _ => objectOf_eq_ok_of_schemas (fun _ _ found => by cases found) h
    cases more with
    | zero => exact kept _
    | succ more => exact kept _
  | succ slack ih =>
    obtain ⟨more, rfl⟩ : ∃ rest, more = rest + 1 := ⟨more - 1, by omega⟩
    refine objectOf_eq_ok_of_schemas (fun component property found => ?_) h
    refine Component.schema_eq_ok_of_refer (fun target element below => ?_) found
    exact ih (Nat.le_of_succ_le_succ room) below

/-- A larger bound keeps the schema of a type. -/
theorem schemaOf_eq_ok_of_le {limit more : Nat} (room : limit ≤ more)
    (h : catalog.schemaOf limit id = .ok schema) : catalog.schemaOf more id = .ok schema :=
  unfold_eq_ok_of_le room h

/-- A type that has a schema under some bound has it from a least bound on, and none below. -/
theorem exists_least_bound {limit : Nat} (h : catalog.schemaOf limit id = .ok schema) :
    ∃ least, ∀ bound, (least ≤ bound → catalog.schemaOf bound id = .ok schema) ∧
      (bound < least → ∃ error, catalog.schemaOf bound id = .error error) := by
  classical
  have enough : ∃ bound, catalog.schemaOf bound id = .ok schema := ⟨limit, h⟩
  refine ⟨Nat.find enough, fun bound => ⟨fun above => ?_, fun below => ?_⟩⟩
  · exact schemaOf_eq_ok_of_le above (Nat.find_spec enough)
  · cases found : catalog.schemaOf bound id with
    | error error => exact ⟨error, rfl⟩
    | ok other =>
      -- A schema under the smaller bound would be this one, which is not found there.
      have kept := schemaOf_eq_ok_of_le (Nat.le_of_lt below) found
      obtain rfl : other = schema := Except.ok.inj (kept.symm.trans (Nat.find_spec enough))
      exact absurd found (Nat.find_min enough below)

/-- A schema of a type under some bound is its schema under every larger one. So the bound only
decides whether there is a schema: either no bound is enough, or there is one schema, which is
found exactly from some least bound on. -/
theorem bound_decides_success_alone (catalog : Catalog) (id : TypeId) :
    (∀ limit more schema, limit ≤ more → catalog.schemaOf limit id = .ok schema →
      catalog.schemaOf more id = .ok schema) ∧
    ((∀ limit, ∃ error, catalog.schemaOf limit id = .error error) ∨
      ∃ schema least, ∀ limit,
        (least ≤ limit → catalog.schemaOf limit id = .ok schema) ∧
        (limit < least → ∃ error, catalog.schemaOf limit id = .error error)) := by
  refine ⟨fun limit more schema room h => schemaOf_eq_ok_of_le room h, ?_⟩
  by_cases some : ∃ limit schema, catalog.schemaOf limit id = .ok schema
  · obtain ⟨limit, schema, h⟩ := some
    exact .inr ⟨schema, exists_least_bound h⟩
  · refine .inl fun limit => ?_
    cases found : catalog.schemaOf limit id with
    | error error => exact ⟨error, rfl⟩
    | ok schema => exact absurd ⟨limit, schema, found⟩ some

/-- A letter has a sender, who is a person, and pages, which have an author: a person again, but
one reference further away. -/
def letters : Catalog where
  types := [⟨⟨1⟩, ⟨7⟩, "Letter", ""⟩, ⟨⟨2⟩, ⟨7⟩, "Page", ""⟩, ⟨⟨3⟩, ⟨7⟩, "Person", ""⟩]
  fields := [TypeField.custom ⟨1⟩ ⟨1⟩ "sender" ⟨3⟩, (TypeField.custom ⟨2⟩ ⟨1⟩ "pages" ⟨2⟩).asArray,
    TypeField.custom ⟨3⟩ ⟨2⟩ "author" ⟨3⟩,
    { id := ⟨4⟩, owner := ⟨3⟩, name := "name", kind := .string }]

/-- What the writers of letters unfold to. -/
def writerSchema : Schema :=
  { label := (), kind := .object, properties := [("name", .bare .string)] }

/-- What pages unfold to. -/
def pageSchema : Schema :=
  { label := (), kind := .object, properties := [("author", writerSchema)] }

/-- What letters unfold to. -/
def letterSchema : Schema :=
  { label := (), kind := .object,
    properties := [("sender", writerSchema), ("pages", .arrayOf pageSchema)] }

/-- Three references are enough for letters, and two are not. -/
theorem bound_decides_success_alone_letters :
    letters.schemaOf 2 ⟨1⟩ = .error (.limitExceeded 2) ∧
    3 ≤ defaultLimit ∧ letters.schemaOf 3 ⟨1⟩ = .ok letterSchema ∧
    letters.schemaOf defaultLimit ⟨1⟩ = .ok letterSchema := by
  have room : 3 ≤ defaultLimit := by decide
  have found : letters.schemaOf 3 ⟨1⟩ = .ok letterSchema := by rfl
  have kept := (bound_decides_success_alone letters ⟨1⟩).1 3 defaultLimit letterSchema room found
  exact ⟨by rfl, room, found, kept⟩

end Catalog

end SchemaGate
