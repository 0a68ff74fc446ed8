import SchemaGate.Catalog.CallSchemas
import SchemaGate.Proofs.Catalog.Records

/-!
# Sides of interfaces as types

The schema of one side of an interface is what a type would unfold to that has the visible
parameters of the side as its fields, if the type is new to the catalog: nothing refers to
it, so nothing else unfolds differently for its presence. A side therefore depends on its
own parameters alone, and on their order.
-/

namespace SchemaGate

/-- The parameter as a field of a type. -/
def Parameter.asField (param : Parameter) (owner : TypeId) : TypeField where
  id := ⟨param.id.key⟩
  owner := owner
  name := param.name
  kind := param.kind
  reference := param.reference
  isArray := param.isArray
  required := param.required
  description := param.description

namespace Catalog

/-- The catalog with one more type and the fields of that type. -/
def withType (catalog : Catalog) (type : CustomType) (fields : List TypeField) : Catalog :=
  ofRecords ⟨catalog.types ++ [type], catalog.fields ++ fields⟩

/-- The catalog with a type that has the visible parameters of a side as its fields. -/
def withSide (catalog : Catalog) (params : List Parameter) (side : Side) (type : CustomType) :
    Catalog :=
  catalog.withType type ((side.visible params).map fun param => param.asField type.id)

/-- The identifier is new to a catalog and to parameters. -/
structure IsNew (catalog : Catalog) (params : List Parameter) (id : TypeId) : Prop where
  /-- No type bears it. -/
  absent : catalog.type? id = none
  /-- No field belongs to it. -/
  ownsNothing : catalog.fieldsOf id = []
  /-- No type refers to it. -/
  unreferred : ∀ source, ¬ catalog.Refers source id
  /-- No parameter refers to it. -/
  unused : ∀ param ∈ params, param.kind = .custom → param.reference ≠ some id

variable {catalog : Catalog} {type : CustomType} {fields : List TypeField}

/-- The type is found in the extended catalog. -/
theorem type?_withType_self :
    (catalog.withType type fields).type? type.id = some type := by
  rw [withType, type?_ofRecords, StoredRecords.lastType?, List.filter_append]
  simp

theorem type?_withType_of_ne {id : TypeId} (h : id ≠ type.id) :
    (catalog.withType type fields).type? id = catalog.type? id := by
  have same : catalog.type? id = (catalog.types.filter fun type => type.id == id).getLast? := by
    rw [← find?_latest, latest_of_nodup catalog.distinct, type?]
  rw [withType, type?_ofRecords, StoredRecords.lastType?, List.filter_append, same]
  simp [h.symm]

/-- It has the given fields, if no field belonged to its identifier before. -/
theorem fieldsOf_withType_self (h : catalog.fieldsOf type.id = [])
    (ho : ∀ field ∈ fields, field.owner = type.id) :
    (catalog.withType type fields).fieldsOf type.id = fields := by
  have all : fields.filter (fun field => field.owner == type.id) = fields := by
    rw [List.filter_eq_self]
    exact fun field hf => by simp [ho field hf]
  unfold fieldsOf at h
  rw [fieldsOf, withType, ofRecords, List.filter_append, h, all, List.nil_append]

theorem fieldsOf_withType_of_ne {id : TypeId} (ho : ∀ field ∈ fields, field.owner = type.id)
    (h : id ≠ type.id) : (catalog.withType type fields).fieldsOf id = catalog.fieldsOf id := by
  have none : fields.filter (fun field => field.owner == id) = [] := by
    rw [List.filter_eq_nil_iff]
    exact fun field hf => by simp [ho field hf, h.symm]
  rw [fieldsOf, withType, ofRecords, List.filter_append, none, List.append_nil]
  rfl

/-- About every other type the extended catalog holds what the catalog holds. -/
theorem sameAt_withType {id : TypeId} (ho : ∀ field ∈ fields, field.owner = type.id)
    (h : id ≠ type.id) : catalog.SameAt (catalog.withType type fields) id where
  described := by rw [type?_withType_of_ne h]
  components := by rw [componentsOf, componentsOf, fieldsOf_withType_of_ne ho h]

/-- A path does not end at a type that nothing refers to, unless it starts there. -/
theorem Path.ne_of_unreferred {steps : Nat} {id source target : TypeId}
    (hp : catalog.Path steps source target) (hs : source ≠ id)
    (hr : ∀ source, ¬ catalog.Refers source id) : target ≠ id := by
  induction hp with
  | here => exact hs
  | step first _ ih =>
    refine ih ?_
    rintro rfl
    exact hr _ first

/-- A type that nothing refers to leaves the unfolding of the others as it is. -/
theorem unfold_withType_of_ne {limit slack : Nat} {id : TypeId}
    (ho : ∀ field ∈ fields, field.owner = type.id)
    (hr : ∀ source, ¬ catalog.Refers source type.id) (h : id ≠ type.id) :
    (catalog.withType type fields).unfold limit slack id = catalog.unfold limit slack id := by
  symm
  exact unfold_congr fun _ _ _ hp => sameAt_withType ho (hp.ne_of_unreferred h hr)

/-- Nor does a component unfold differently unless it refers to the type. -/
theorem componentSchema_withType {descent : Descent} {component : Component}
    (ho : ∀ field ∈ fields, field.owner = type.id)
    (hr : ∀ source, ¬ catalog.Refers source type.id)
    (hc : component.kind = .custom → component.reference ≠ some type.id) :
    (catalog.withType type fields).componentSchema descent component =
      catalog.componentSchema descent component := by
  rw [componentSchema_eq, componentSchema_eq]
  refine congrArg (descent.check >>= ·) (funext fun _ => ?_)
  refine Component.schema_congr fun hk target ht => unfold_withType_of_ne ho hr ?_
  rintro rfl
  exact hc hk ht

/-- A side unfolds as a new type with the visible parameters of the side as its fields. -/
theorem sideSchema_eq_unfold {params : List Parameter} {side : Side}
    (hn : catalog.IsNew params type.id) (hd : type.description = "") :
    catalog.sideSchema params side =
      (catalog.withSide params side type).schemaOf defaultLimit type.id := by
  have owned : ∀ field ∈ (side.visible params).map fun param => param.asField type.id,
      field.owner = type.id := by
    intro field hf
    obtain ⟨param, -, rfl⟩ := List.mem_map.mp hf
    rfl
  have components : (catalog.withSide params side type).componentsOf type.id =
      (side.visible params).map Parameter.component := by
    rw [componentsOf, withSide, fieldsOf_withType_self hn.ownsNothing owned, List.map_map]
    rfl
  have described : (Node.bare .object).describedAs type.description = Node.bare .object := by
    rw [hd]
    rfl
  have found : (catalog.withSide params side type).type? type.id = some type :=
    type?_withType_self
  rw [schemaOf, typeSchema_eq, objectOf, found]
  simp only [described, components]
  refine Component.addAll_congr (fun component hc => ?_) _
  obtain ⟨param, hp, rfl⟩ := List.mem_map.mp hc
  exact (componentSchema_withType owned hn.unreferred
    (hn.unused param (Side.mem_visible_iff.mp hp).1)).symm

/-- Callers see the parameters of a side but for scalars outside lists that have a default with a
text. -/
theorem mem_visible_iff_not_supplied {params : List Parameter} {side : Side} {param : Parameter} :
    param ∈ side.visible params ↔ param ∈ params ∧ param.side = side ∧
      ¬ (param.kind ≠ .custom ∧ param.isArray = false ∧
        ∃ value, param.defaultValue = some value ∧ value ≠ "") := by
  rw [Side.mem_visible_iff, ← Parameter.isSupplied_iff, Bool.not_eq_true]

/-- What is visible of a side is among the parameters of the side. -/
theorem visible_eq_filter (params : List Parameter) (side : Side) :
    side.visible params =
      (params.filter fun param => param.side == side).filter fun param => !param.isSupplied := by
  rw [List.filter_filter]
  exact List.filter_congr fun param _ => Bool.and_comm _ _

/-- A side depends on its own parameters alone. -/
theorem sideSchema_congr {params others : List Parameter} {side : Side}
    (h : others.filter (fun param => param.side == side) =
      params.filter fun param => param.side == side) :
    catalog.sideSchema others side = catalog.sideSchema params side := by
  rw [sideSchema, sideSchema, visible_eq_filter, visible_eq_filter, h]

/-- An error of both schemas is one of the arguments, or one of the response after the
arguments went well. -/
theorem callSchemas_eq_error_iff {params : List Parameter} {error : UnfoldError} :
    catalog.callSchemas params = .error error ↔
      catalog.sideSchema params .input = .error error ∨
      (∃ schema, catalog.sideSchema params .input = .ok schema) ∧
        catalog.sideSchema params .output = .error error := by
  unfold callSchemas
  cases catalog.sideSchema params .input with
  | error first => simp [bind, Except.bind]
  | ok input =>
    cases catalog.sideSchema params .output with
    | error second => simp [bind, Except.bind]
    | ok output => simp [bind, Except.bind, pure, Except.pure]

/-- Both schemas come about together. -/
theorem callSchemas_eq_ok_iff {params : List Parameter} {schemas : CallSchemas} :
    catalog.callSchemas params = .ok schemas ↔
      catalog.sideSchema params .input = .ok schemas.input ∧
        catalog.sideSchema params .output = .ok schemas.output := by
  unfold callSchemas
  cases catalog.sideSchema params .input with
  | error first => simp [bind, Except.bind]
  | ok input =>
    cases catalog.sideSchema params .output with
    | error second => simp [bind, Except.bind]
    | ok output =>
      cases schemas
      simp [bind, Except.bind, pure, Except.pure]

/-- A side of an interface has the schema, or the error, of a new type without description
whose fields are the visible parameters of the side, which are all of the side but for scalars
outside lists that have a default with a text. So it stays the same however
parameters of the other side are changed, and wherever they stand among its own. Both sides
together fail exactly if one of them fails, with the error of the arguments if both do. -/
theorem side_unfolds_as_new_type (catalog : Catalog) (params : List Parameter) :
    (∀ (side : Side) (param : Parameter), param ∈ side.visible params ↔
      param ∈ params ∧ param.side = side ∧
        ¬ (param.kind ≠ .custom ∧ param.isArray = false ∧
          ∃ value, param.defaultValue = some value ∧ value ≠ "")) ∧
    (∀ (side : Side) (type : CustomType), catalog.IsNew params type.id →
      type.description = "" → catalog.sideSchema params side =
        (catalog.withSide params side type).schemaOf defaultLimit type.id) ∧
    (∀ (side : Side) (others : List Parameter),
      others.filter (fun param => param.side == side) =
        params.filter (fun param => param.side == side) →
      catalog.sideSchema others side = catalog.sideSchema params side) ∧
    (∀ error, catalog.callSchemas params = .error error ↔
      catalog.sideSchema params .input = .error error ∨
      (∃ schema, catalog.sideSchema params .input = .ok schema) ∧
        catalog.sideSchema params .output = .error error) ∧
    ∀ schemas, catalog.callSchemas params = .ok schemas ↔
      catalog.sideSchema params .input = .ok schemas.input ∧
        catalog.sideSchema params .output = .ok schemas.output :=
  ⟨fun _ _ => mem_visible_iff_not_supplied, fun _ _ hn hd => sideSchema_eq_unfold hn hd,
    fun _ _ h => sideSchema_congr h, fun _ => callSchemas_eq_error_iff,
    fun _ => callSchemas_eq_ok_iff⟩

/-- A place has a city, which must be told. -/
def places : Catalog where
  types := [⟨⟨1⟩, ⟨7⟩, "Place", "A place on the map"⟩]
  fields := [TypeField.asRequired { id := ⟨1⟩, owner := ⟨1⟩, name := "city", kind := .string }]

/-- The length of a trip is told in a unit that is supplied. -/
def unit : Parameter where
  id := ⟨3⟩
  interface := ⟨5⟩
  app := ⟨7⟩
  name := "unit"
  kind := .string
  side := .input
  defaultValue := some "km"

/-- Of a trip there may be notes. Their default has no text, so it is not supplied. -/
def notes : Parameter where
  id := ⟨5⟩
  interface := ⟨5⟩
  app := ⟨7⟩
  name := "notes"
  kind := .string
  side := .input
  defaultValue := some ""

/-- A trip leads to a place, perhaps through others. Its stages are a list, for which no default is
supplied, and its duration comes back. -/
def trip : List Parameter := [
  { id := ⟨1⟩, interface := ⟨5⟩, app := ⟨7⟩, name := "to", kind := .custom,
    reference := some ⟨1⟩, required := true, side := .input },
  { id := ⟨2⟩, interface := ⟨5⟩, app := ⟨7⟩, name := "minutes", kind := .number,
    side := .output },
  unit,
  { id := ⟨4⟩, interface := ⟨5⟩, app := ⟨7⟩, name := "via", kind := .custom,
    reference := some ⟨1⟩, isArray := true, description := "stops", side := .input },
  notes,
  { id := ⟨6⟩, interface := ⟨5⟩, app := ⟨7⟩, name := "stages", kind := .number, isArray := true,
    side := .input, defaultValue := some "1" }]

/-- A type for the arguments of a trip. -/
def tripType : CustomType := ⟨⟨9⟩, ⟨7⟩, "Trip", ""⟩

/-- What places unfold to. -/
def placeSchema : Schema :=
  { label := (), kind := .object, description := "A place on the map", required := .ofList ["city"],
    properties := [("city", .bare .string)] }

/-- What the arguments of a trip unfold to. -/
def tripArguments : Schema :=
  { label := (), kind := .object, required := .ofList ["to"],
    properties := [("to", placeSchema),
      ("via", (Node.arrayOf placeSchema).describedAs "stops"), ("notes", .bare .string),
      ("stages", .arrayOf (.bare .number))] }

theorem isNew_trip : places.IsNew trip tripType.id where
  absent := by decide
  ownsNothing := by decide
  unreferred := by
    rintro source ⟨field, hf, hk, -⟩
    have own : field ∈ places.fields := (List.mem_filter.mp hf).1
    obtain rfl := List.mem_singleton.mp own
    cases hk
  unused := by decide

/-- A default without text and one of a list are not supplied, so callers see these parameters
and the schema has them. -/
theorem side_unfolds_as_new_type_trip :
    unit ∉ Side.input.visible trip ∧ notes ∈ Side.input.visible trip ∧
    places.IsNew trip tripType.id ∧ tripType.description = "" ∧
    (places.withSide trip .input tripType).schemaOf defaultLimit tripType.id =
      .ok tripArguments ∧
    places.sideSchema trip .input = .ok tripArguments := by
  have unfolded : (places.withSide trip .input tripType).schemaOf defaultLimit tripType.id =
      .ok tripArguments := by rfl
  obtain ⟨seen, unfolds, -⟩ := side_unfolds_as_new_type places trip
  have supplied : unit ∉ Side.input.visible trip := fun visible =>
    ((seen .input unit).mp visible).2.2 ⟨by decide, rfl, "km", rfl, by decide⟩
  have asked : notes ∈ Side.input.visible trip :=
    (seen .input notes).mpr ⟨by decide, rfl, fun ⟨_, _, _, told, text⟩ =>
      text (Option.some.inj told).symm⟩
  have same := unfolds .input tripType isNew_trip rfl
  exact ⟨supplied, asked, isNew_trip, rfl, unfolded, same.trans unfolded⟩

end Catalog

end SchemaGate
