import SchemaGate.Proofs.Catalog.Resolution
import SchemaGate.Proofs.Catalog.Walk

/-!
# The error of a type that does not unfold

An unfolding fails with the first offence on its walk: the error passes unchanged from the
type where it is found up to the root (`failure?_unfold`). What the walk met before tells
where the offence is, since a type is met only below types that exist and a field is left
only when it unfolds.
-/

namespace SchemaGate

/-- The error of a result that is one. -/
def failure? {ε α : Type} : Except ε α → Option ε
  | .ok _ => none
  | .error error => some error

theorem failure?_eq_some_iff {ε α : Type} {result : Except ε α} {error : ε} :
    failure? result = some error ↔ result = .error error := by
  cases result <;> simp [failure?]

theorem failure?_eq_none_iff {ε α : Type} {result : Except ε α} :
    failure? result = none ↔ ∃ value, result = .ok value := by
  cases result <;> simp [failure?]

/-- The first hit in several lists is found list after list. -/
theorem findSome?_flatMap {α β γ : Type} (lists : α → List β) (hit : β → Option γ)
    (items : List α) : (items.flatMap lists).findSome? hit =
      items.findSome? fun item => (lists item).findSome? hit := by
  induction items with
  | nil => rfl
  | cons item items ih =>
    rw [List.flatMap_cons, List.findSome?_append, List.findSome?_cons, ih]
    cases (lists item).findSome? hit <;> rfl

namespace Component

/-- Adding components fails with the first failure among them. -/
theorem failure?_addAll (schemas : Component → Except UnfoldError Schema) (object : Schema)
    (components : List Component) : failure? (addAll schemas object components) =
      components.findSome? fun component => failure? (schemas component) := by
  induction components generalizing object with
  | nil => rfl
  | cons component rest ih =>
    rw [addAll, List.findSome?_cons]
    cases schemas component with
    | error error => rfl
    | ok property => exact ih _

/-- Putting the schema of one value into place does not fail. -/
theorem failure?_schema (component : Component) (refer : TypeId → Except UnfoldError Schema) :
    failure? (component.schema refer) = failure? (component.element refer) := by
  rw [schema]
  cases component.element refer <;> rfl

end Component

namespace Catalog

variable {catalog : Catalog} {limit : Nat}

/-- If components fail with what the walk meets at their fields, so does the whole type. -/
theorem failure?_objectOf {schemas : Component → Except UnfoldError Schema}
    {inside : TypeField → List Moment} {depth : Nat} {id : TypeId}
    (same : ∀ field, failure? (schemas field.component) =
      (Moment.field depth field :: inside field).findSome? (catalog.offence? limit)) :
    failure? (catalog.objectOf schemas id) =
      (catalog.typeWalk inside depth id).findSome? (catalog.offence? limit) := by
  rw [objectOf, typeWalk, List.findSome?_cons, offence?]
  cases catalog.type? id with
  | none => rfl
  | some type =>
    have left (field : TypeField) :
        (Moment.field depth field :: (inside field ++ [.done depth field])).findSome?
          (catalog.offence? limit) = failure? (schemas field.component) := by
      rw [same, ← List.cons_append, List.findSome?_append]
      exact Option.or_none
    simp only [reduceCtorEq, if_false]
    rw [Component.failure?_addAll, componentsOf, List.findSome?_map, findSome?_flatMap]
    exact congrArg (fun hit => List.findSome? hit _) (funext fun field => (left field).symm)

/-- Below the bound a field fails if it refers to nothing or with what it refers to. -/
theorem failure?_schema_component {refer : TypeId → Except UnfoldError Schema}
    {next : TypeId → List Moment} {depth : Nat} (room : depth < limit)
    (same : ∀ target, failure? (refer target) =
      (next target).findSome? (catalog.offence? limit)) (field : TypeField) :
    failure? (field.component.schema refer) =
      (Moment.field depth field :: (referencesOf [field]).flatMap next).findSome?
        (catalog.offence? limit) := by
  have below : ¬ limit ≤ depth := Nat.not_le.mpr room
  rw [Component.failure?_schema, TypeField.component, Component.element]
  cases hk : field.kind with
  | custom =>
    cases hr : field.reference with
    | none => simp [offence?, failure?, referencesOf, below, hk, hr]
    | some target => simp [offence?, referencesOf, same target, below, hk, hr]
  | _ => simp [offence?, failure?, referencesOf, below, hk]

/-- If the types behind a field fail with the first offence on their walks, the field fails with
the first offence where it is met or below it. -/
theorem failure?_unfoldComponent_of_types {depth rest : Nat} (total : depth + rest = limit)
    (types : ∀ more, more + 1 = rest → ∀ target, failure? (catalog.unfold limit more target) =
      (catalog.walk (depth + 1) more target).findSome? (catalog.offence? limit))
    (field : TypeField) : failure? (catalog.unfoldComponent limit field.component rest) =
      (Moment.field depth field :: catalog.walkInside depth field rest).findSome?
        (catalog.offence? limit) := by
  cases rest with
  | zero =>
    have bound : limit ≤ depth := by omega
    simp [unfoldComponent, failure?, offence?, bound]
  | succ rest => exact failure?_schema_component (by omega) (types rest rfl) field

/-- An unfolding fails with the first offence on its walk. -/
theorem failure?_unfold {depth rest : Nat} (total : depth + rest = limit) (id : TypeId) :
    failure? (catalog.unfold limit rest id) =
      (catalog.walk depth rest id).findSome? (catalog.offence? limit) := by
  induction rest generalizing depth id with
  | zero => exact failure?_objectOf (failure?_unfoldComponent_of_types total nofun)
  | succ rest ih =>
    refine failure?_objectOf (failure?_unfoldComponent_of_types total fun more same target => ?_)
    obtain rfl := Nat.succ.inj same
    exact ih (by omega) target

/-- A field fails with the first offence where it is met or below it. -/
theorem failure?_unfoldComponent {depth rest : Nat} (total : depth + rest = limit)
    (field : TypeField) : failure? (catalog.unfoldComponent limit field.component rest) =
      (Moment.field depth field :: catalog.walkInside depth field rest).findSome?
        (catalog.offence? limit) :=
  failure?_unfoldComponent_of_types total
    (fun _ same target => failure?_unfold (by omega) target) field

theorem componentSchema_eq_unfoldComponent {depth rest : Nat} (total : depth + rest = limit)
    (component : Component) : catalog.componentSchema ⟨depth, limit⟩ component =
      catalog.unfoldComponent limit component rest := by
  obtain rfl : rest = limit - depth := by omega
  rfl

variable {id : TypeId} {error : UnfoldError} {before after : List Moment} {moment : Moment}

/-- Looking for the schema of a type fails with the first offence on its walk. -/
theorem failure?_schemaOf (catalog : Catalog) (limit : Nat) (id : TypeId) :
    failure? (catalog.schemaOf limit id) =
      (catalog.walk 0 limit id).findSome? (catalog.offence? limit) :=
  failure?_unfold (Nat.zero_add limit) id

/-- A type has no schema exactly if there is a first offence on its walk, which is the error. -/
theorem schemaOf_eq_error_iff : catalog.schemaOf limit id = .error error ↔
    ∃ before moment after, catalog.walk 0 limit id = before ++ moment :: after ∧
      (∀ earlier ∈ before, catalog.offence? limit earlier = none) ∧
      catalog.offence? limit moment = some error := by
  rw [← failure?_eq_some_iff, failure?_schemaOf, List.findSome?_eq_some_iff]
  constructor
  · rintro ⟨before, moment, after, split, offends, clear⟩
    exact ⟨before, moment, after, split, clear, offends⟩
  · rintro ⟨before, moment, after, split, clear, offends⟩
    exact ⟨before, moment, after, split, offends, clear⟩

/-- With an offence anywhere on its walk a type has no schema. -/
theorem exists_error_of_offence (met : moment ∈ catalog.walk 0 limit id)
    (offends : catalog.offence? limit moment ≠ none) :
    ∃ error, catalog.schemaOf limit id = .error error := by
  cases found : catalog.schemaOf limit id with
  | error error => exact ⟨error, rfl⟩
  | ok schema =>
    have quiet : (catalog.walk 0 limit id).findSome? (catalog.offence? limit) = none := by
      rw [← failure?_schemaOf, failure?_eq_none_iff]
      exact ⟨schema, found⟩
    exact absurd (List.findSome?_eq_none_iff.mp quiet moment met) offends

/-- A type that was met without an offence exists. -/
theorem type?_ne_none_of_clear (clear : ∀ earlier ∈ before, catalog.offence? limit earlier = none)
    {depth : Nat} (met : .type depth id ∈ before) : catalog.type? id ≠ none := by
  intro missing
  have offends := clear _ met
  simp [offence?, missing] at offends

/-- A field that was left without an offence before has a schema. -/
theorem componentSchema_of_done (split : catalog.walk 0 limit id = before ++ after)
    (clear : ∀ earlier ∈ before, catalog.offence? limit earlier = none) {depth : Nat}
    {field : TypeField} (left : .done depth field ∈ before) :
    ∃ schema, catalog.componentSchema ⟨depth, limit⟩ field.component = .ok schema := by
  obtain ⟨front, back, rfl⟩ := List.append_of_mem left
  rw [List.append_assoc, List.cons_append] at split
  obtain ⟨steps, rest, first, total, rfl, rfl⟩ := done_met_of_walk split
  have room : 0 + steps + rest = limit := by omega
  rw [componentSchema_eq_unfoldComponent room, ← failure?_eq_none_iff,
    failure?_unfoldComponent room, List.findSome?_eq_none_iff]
  intro earlier met
  exact clear earlier (List.mem_append_left _ (List.mem_append_right first met))

/-- A field that was met before the first offence and not left fails with it. -/
theorem componentSchema_of_field (split : catalog.walk 0 limit id = before ++ moment :: after)
    (clear : ∀ earlier ∈ before, catalog.offence? limit earlier = none)
    (offends : catalog.offence? limit moment = some error) {depth : Nat}
    {field : TypeField} (met : .field depth field ∈ before) : .done depth field ∈ before ∨
      catalog.componentSchema ⟨depth, limit⟩ field.component = .error error := by
  obtain ⟨front, later, rfl⟩ := List.append_of_mem met
  rw [List.append_assoc, List.cons_append] at split
  obtain ⟨steps, rest, owner, total, rfl, -, -, -, back, inside⟩ := field_met_of_walk split
  rcases append_eq_append_cons_cases inside.symm with ⟨more, within, -⟩ | ⟨more, rfl, last⟩
  · -- The offence lies below the field.
    right
    have room : 0 + steps + rest = limit := by omega
    rw [componentSchema_eq_unfoldComponent room, ← failure?_eq_some_iff,
      failure?_unfoldComponent room, within, List.findSome?_eq_some_iff]
    exact ⟨_, moment, more, rfl, offends,
      fun earlier between => clear earlier (List.mem_append_right front between)⟩
  · left
    rcases List.cons_eq_append_iff.mp last with ⟨rfl, same⟩ | ⟨_, rfl, -⟩
    · rw [(List.cons.inj same).1] at offends
      cases offends
    · simp

/-- Of the moments of a walk types that do not exist are wrong, fields at the bound, and
fields below it that refer to nothing. -/
theorem offence?_cases (offends : catalog.offence? limit moment = some error) :
    (∃ depth target, moment = .type depth target ∧ catalog.type? target = none ∧
      error = .typeNotFound target) ∨
    (∃ depth field, moment = .field depth field ∧ limit ≤ depth ∧
      error = .limitExceeded limit) ∨
    ∃ depth field, moment = .field depth field ∧ depth < limit ∧ field.kind = .custom ∧
      field.reference = none ∧ error = .missingReference field.name := by
  cases moment with
  | type depth target =>
    by_cases missing : catalog.type? target = none
    · rw [offence?, if_pos missing] at offends
      exact .inl ⟨depth, target, rfl, missing, (Option.some.inj offends).symm⟩
    · rw [offence?, if_neg missing] at offends
      cases offends
  | field depth field =>
    right
    by_cases bound : limit ≤ depth
    · rw [offence?, if_pos bound] at offends
      exact .inl ⟨depth, field, rfl, bound, (Option.some.inj offends).symm⟩
    · by_cases dangling : field.kind = .custom ∧ field.reference = none
      · rw [offence?, if_neg bound, if_pos dangling] at offends
        exact .inr ⟨depth, field, rfl, Nat.not_le.mp bound, dangling.1, dangling.2,
          (Option.some.inj offends).symm⟩
      · rw [offence?, if_neg bound, if_neg dangling] at offends
        cases offends
  | done depth field => cases offends

/-- The records bear out what an error says of the unfolding of a type. -/
def BearsOut (catalog : Catalog) (limit : Nat) (id : TypeId) : UnfoldError → Prop
  | .typeNotFound missing =>
    catalog.type? missing = none ∧ (missing = id ∨ ∃ steps < limit, ∃ owner,
      catalog.Path steps id owner ∧ catalog.type? owner ≠ none ∧ catalog.Refers owner missing)
  | .missingReference name =>
    ∃ steps < limit, ∃ owner, catalog.Path steps id owner ∧ catalog.type? owner ≠ none ∧
      ∃ field ∈ catalog.fieldsOf owner, field.name = name ∧ field.kind = .custom ∧
        field.reference = none
  | .limitExceeded bound =>
    bound = limit ∧ ∃ target, catalog.Path limit id target ∧ catalog.type? target ≠ none ∧
      catalog.fieldsOf target ≠ []

/-- The first offence on a walk is borne out by the records. -/
theorem bearsOut_of_first (split : catalog.walk 0 limit id = before ++ moment :: after)
    (clear : ∀ earlier ∈ before, catalog.offence? limit earlier = none)
    (offends : catalog.offence? limit moment = some error) :
    catalog.BearsOut limit id error := by
  rcases offence?_cases offends with ⟨depth, target, rfl, missing, rfl⟩ |
    ⟨depth, field, rfl, bound, rfl⟩ | ⟨depth, field, rfl, bound, custom, dangling, rfl⟩
  · rcases type_met_of_walk split with root | ⟨steps, owner, room, path, met, refers⟩
    · exact ⟨missing, .inl root⟩
    · exact ⟨missing, .inr ⟨steps, room, owner, path, type?_ne_none_of_clear clear met, refers⟩⟩
  · obtain ⟨steps, rest, owner, total, rfl, path, met, own, -⟩ := field_met_of_walk split
    obtain rfl : steps = limit := by omega
    exact ⟨rfl, owner, path, type?_ne_none_of_clear clear met, List.ne_nil_of_mem own⟩
  · obtain ⟨steps, rest, owner, -, rfl, path, met, own, -⟩ := field_met_of_walk split
    rw [Nat.zero_add] at bound
    exact ⟨steps, bound, owner, path, type?_ne_none_of_clear clear met, field, own, rfl, custom,
      dangling⟩

/-- Every custom field of the types on the paths from a type refers to a type that exists. -/
def ReferencesResolve (catalog : Catalog) (id : TypeId) : Prop :=
  ∀ steps owner, catalog.Path steps id owner → ∀ field ∈ catalog.fieldsOf owner,
    field.kind = .custom →
      ∃ target, field.reference = some target ∧ catalog.type? target ≠ none

/-- Where every reference resolves, only the bound can be exceeded. -/
theorem eq_limitExceeded_of_bearsOut (known : catalog.type? id ≠ none)
    (resolve : catalog.ReferencesResolve id) (h : catalog.BearsOut limit id error) :
    error = .limitExceeded limit := by
  cases error with
  | typeNotFound missing =>
    obtain ⟨unknown, rfl | ⟨steps, -, owner, path, -, field, own, custom, refers⟩⟩ := h
    · exact absurd unknown known
    · obtain ⟨target, same, found⟩ := resolve steps owner path field own custom
      obtain rfl : missing = target := Option.some.inj (refers.symm.trans same)
      exact absurd unknown found
  | missingReference name =>
    obtain ⟨steps, -, owner, path, -, field, own, -, custom, dangling⟩ := h
    obtain ⟨target, same, -⟩ := resolve steps owner path field own custom
    rw [dangling] at same
    cases same
  | limitExceeded bound => rw [h.1]

/-- A type that does not unfold fails with the first offence on the walk from it, in depth-first
order. The records bear the error out. The fields that were left by then have schemas, and those
that were met but not left fail with this same error. Any offence on the walk lets the unfolding
fail; where every reference resolves, a type that reaches a cycle fails because the bound is
exceeded. -/
theorem unfolding_fails_at_first_offence (catalog : Catalog) (limit : Nat) (id : TypeId) :
    (∀ error, catalog.schemaOf limit id = .error error →
      catalog.BearsOut limit id error ∧
      ∃ before moment after, catalog.walk 0 limit id = before ++ moment :: after ∧
        (∀ earlier ∈ before, catalog.offence? limit earlier = none) ∧
        catalog.offence? limit moment = some error ∧
        (∀ depth field, .done depth field ∈ before →
          ∃ schema, catalog.componentSchema ⟨depth, limit⟩ field.component = .ok schema) ∧
        ∀ depth field, .field depth field ∈ before → .done depth field ∈ before ∨
          catalog.componentSchema ⟨depth, limit⟩ field.component = .error error) ∧
    (∀ moment ∈ catalog.walk 0 limit id, catalog.offence? limit moment ≠ none →
      ∃ error, catalog.schemaOf limit id = .error error) ∧
    (catalog.type? id ≠ none → catalog.ReferencesResolve id → catalog.ReachesCycle id →
      catalog.schemaOf limit id = .error (.limitExceeded limit)) := by
  refine ⟨?_, fun moment met offends => exists_error_of_offence met offends, ?_⟩
  · intro error failed
    obtain ⟨before, moment, after, split, clear, offends⟩ := schemaOf_eq_error_iff.mp failed
    exact ⟨bearsOut_of_first split clear offends, before, moment, after, split, clear, offends,
      fun depth field left => componentSchema_of_done split clear left,
      fun depth field met => componentSchema_of_field split clear offends met⟩
  · intro known resolve cycle
    cases found : catalog.schemaOf limit id with
    | ok schema =>
      exact absurd (exists_schemaOf_iff.mp ⟨schema, found⟩)
        (not_resolvesWithin_of_reachesCycle cycle limit)
    | error error =>
      obtain ⟨before, moment, after, split, clear, offends⟩ := schemaOf_eq_error_iff.mp found
      rw [eq_limitExceeded_of_bearsOut known resolve (bearsOut_of_first split clear offends)]

/-- An order names its customer, whose address is in a country that is not on record. Its note
refers to nothing, but comes later; that of a claim comes first. -/
def orders : Catalog where
  types := [⟨⟨1⟩, ⟨7⟩, "Order", ""⟩, ⟨⟨2⟩, ⟨7⟩, "Customer", ""⟩, ⟨⟨3⟩, ⟨7⟩, "Address", ""⟩,
    ⟨⟨4⟩, ⟨7⟩, "Claim", ""⟩]
  fields := [
    { id := ⟨1⟩, owner := ⟨1⟩, name := "total", kind := .number },
    TypeField.custom ⟨2⟩ ⟨1⟩ "customer" ⟨2⟩,
    { id := ⟨3⟩, owner := ⟨1⟩, name := "note", kind := .custom },
    { id := ⟨4⟩, owner := ⟨2⟩, name := "name", kind := .string },
    TypeField.custom ⟨5⟩ ⟨2⟩ "address" ⟨3⟩,
    TypeField.custom ⟨6⟩ ⟨3⟩ "country" ⟨9⟩,
    { id := ⟨7⟩, owner := ⟨4⟩, name := "note", kind := .custom },
    TypeField.custom ⟨8⟩ ⟨4⟩ "order" ⟨1⟩]

/-- A person has friends. -/
def friends : Catalog where
  types := [⟨⟨1⟩, ⟨7⟩, "Person", ""⟩]
  fields := [
    { id := ⟨1⟩, owner := ⟨1⟩, name := "name", kind := .string },
    (TypeField.custom ⟨2⟩ ⟨1⟩ "friends" ⟨1⟩).asArray]

theorem referencesResolve_friends : friends.ReferencesResolve ⟨1⟩ := by
  intro steps owner _ field own custom
  have stored : field ∈ friends.fields := List.mem_of_mem_filter own
  rcases List.mem_cons.mp stored with rfl | stored
  · cases custom
  · obtain rfl := List.mem_singleton.mp stored
    exact ⟨⟨1⟩, rfl, by decide⟩

/-- Which offence comes first changes with the bound and with the type; friends of friends are
followed up to any bound. -/
theorem unfolding_fails_at_first_offence_orders :
    orders.schemaOf 3 ⟨1⟩ = .error (.typeNotFound ⟨9⟩) ∧
    orders.BearsOut 3 ⟨1⟩ (.typeNotFound ⟨9⟩) ∧
    orders.schemaOf 2 ⟨1⟩ = .error (.limitExceeded 2) ∧
    orders.BearsOut 2 ⟨1⟩ (.limitExceeded 2) ∧
    orders.schemaOf 2 ⟨4⟩ = .error (.missingReference "note") ∧
    orders.BearsOut 2 ⟨4⟩ (.missingReference "note") ∧
    friends.type? ⟨1⟩ ≠ none ∧ friends.ReferencesResolve ⟨1⟩ ∧ friends.ReachesCycle ⟨1⟩ ∧
    friends.schemaOf defaultLimit ⟨1⟩ = .error (.limitExceeded defaultLimit) := by
  have unknown : orders.schemaOf 3 ⟨1⟩ = .error (.typeNotFound ⟨9⟩) := by rfl
  have deep : orders.schemaOf 2 ⟨1⟩ = .error (.limitExceeded 2) := by rfl
  have dangling : orders.schemaOf 2 ⟨4⟩ = .error (.missingReference "note") := by rfl
  have known : friends.type? ⟨1⟩ ≠ none := by decide
  have cycle : friends.ReachesCycle ⟨1⟩ := by
    have round : friends.Refers ⟨1⟩ ⟨1⟩ :=
      ⟨(TypeField.custom ⟨2⟩ ⟨1⟩ "friends" ⟨1⟩).asArray, by decide, rfl, rfl⟩
    exact ⟨0, 0, ⟨1⟩, .here _, .step round (.here _)⟩
  exact ⟨unknown, ((unfolding_fails_at_first_offence orders 3 ⟨1⟩).1 _ unknown).1,
    deep, ((unfolding_fails_at_first_offence orders 2 ⟨1⟩).1 _ deep).1,
    dangling, ((unfolding_fails_at_first_offence orders 2 ⟨4⟩).1 _ dangling).1,
    known, referencesResolve_friends, cycle,
    (unfolding_fails_at_first_offence friends defaultLimit ⟨1⟩).2.2 known
      referencesResolve_friends cycle⟩

end Catalog

end SchemaGate
