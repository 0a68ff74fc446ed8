import SchemaGate.Catalog.Basic
import SchemaGate.Catalog.Parameter
import SchemaGate.Schema.Node

/-!
# Unfolding custom types into schemas

The schema of a custom type is the unfolding of its records: an object whose
properties are its fields, each field a scalar, the schema of the type that it refers
to, or an array of either. Nothing remembers which types were met before. A bound on
nested references is what ends the unfolding of a cycle: at the bound no field
unfolds any more, while a type without fields still does.

The parts of a field and of a parameter that decide a schema are the same, a
`Component`.
-/

namespace SchemaGate

/-- Why a type has no schema. -/
inductive UnfoldError where
  /-- A type that is referred to does not exist. -/
  | typeNotFound (id : TypeId)
  /-- A component of a custom kind refers to nothing. -/
  | missingReference (component : String)
  /-- References nest deeper than the bound. -/
  | limitExceeded (limit : Nat)
  deriving DecidableEq, Repr

/-- The wording of the error. -/
def UnfoldError.message : UnfoldError → String
  | .typeNotFound id => "custom type not found: " ++ id.display
  | .missingReference component => "custom type field ref is required: " ++ component
  | .limitExceeded limit => "maximum recursion depth exceeded (limit " ++ toString limit ++ ")"

/-- The bound on nested references unless another one is asked for. -/
def defaultLimit : Nat := 10

/-- How deep references nest, and the bound on it. -/
structure Descent where
  /-- The number of references followed. -/
  depth : Nat := 0
  /-- The bound. -/
  limit : Nat := defaultLimit
  deriving DecidableEq, Repr

namespace Descent

/-- The descent behind one more reference. -/
def next (descent : Descent) : Descent := { descent with depth := descent.depth + 1 }

/-- How many more references may be followed before the bound. -/
def slack (descent : Descent) : Nat := descent.limit - descent.depth

/-- Fail at the bound. -/
def check (descent : Descent) : Except UnfoldError Unit :=
  if descent.limit ≤ descent.depth then .error (.limitExceeded descent.limit) else .ok ()

theorem slack_next (descent : Descent) : descent.next.slack = descent.slack - 1 := by
  simp only [slack, next]
  omega

theorem check_eq_ok_iff {descent : Descent} : descent.check = .ok () ↔ 0 < descent.slack := by
  unfold check slack
  split
  · next h => simp; omega
  · next h => simp; omega

end Descent

/-- What decides the schema of a field or parameter. -/
structure Component where
  /-- The name of the property. -/
  name : String
  /-- The declared kind. -/
  kind : FieldKind
  /-- The referenced type, for a custom kind. -/
  reference : Option TypeId
  /-- Whether it holds a list. -/
  isArray : Bool
  /-- Whether it must be present. -/
  required : Bool
  /-- Free text. -/
  description : String
  deriving DecidableEq

/-- What decides the schema of a field. -/
def TypeField.component (field : TypeField) : Component :=
  ⟨field.name, field.kind, field.reference, field.isArray, field.required, field.description⟩

/-- What decides the schema of a parameter. -/
def Parameter.component (param : Parameter) : Component :=
  ⟨param.name, param.kind, param.reference, param.isArray, param.required, param.description⟩

namespace Component

/-- The schema of one value of a component; `refer` gives the schemas of referenced types. -/
def element (component : Component) (refer : TypeId → Except UnfoldError Schema) :
    Except UnfoldError Schema :=
  match component.kind with
  | .string => .ok (.bare .string)
  | .number => .ok (.bare .number)
  | .boolean => .ok (.bare .boolean)
  | .custom =>
    match component.reference with
    | none => .error (.missingReference component.name)
    | some target => refer target

/-- Put the schema of one value into place: a list gets the description of the component,
as does a scalar; a referenced type keeps its own. -/
def wrap (component : Component) (element : Schema) : Schema :=
  if component.isArray then (Node.arrayOf element).describedAs component.description
  else if component.kind.isScalar then element.describedAs component.description
  else element

/-- The schema of a component. -/
def schema (component : Component) (refer : TypeId → Except UnfoldError Schema) :
    Except UnfoldError Schema :=
  component.wrap <$> component.element refer

/-- The schema of one value is bare, or it is the schema of the type that is referred to. -/
theorem element_cases {component : Component} {refer : TypeId → Except UnfoldError Schema}
    {element : Schema} (h : component.element refer = .ok element) :
    (component.kind = .string ∧ element = .bare .string) ∨
    (component.kind = .number ∧ element = .bare .number) ∨
    (component.kind = .boolean ∧ element = .bare .boolean) ∨
    (component.kind = .custom ∧ ∃ target, component.reference = some target ∧
      refer target = .ok element) := by
  unfold Component.element at h
  split at h
  · next hk => exact .inl ⟨hk, (Except.ok.inj h).symm⟩
  · next hk => exact .inr (.inl ⟨hk, (Except.ok.inj h).symm⟩)
  · next hk => exact .inr (.inr (.inl ⟨hk, (Except.ok.inj h).symm⟩))
  · next hk =>
    split at h
    · cases h
    · next target hr => exact .inr (.inr (.inr ⟨hk, target, hr, h⟩))

/-- The schema of a component is that of one value, put into place. -/
theorem schema_eq_ok_iff {component : Component} {refer : TypeId → Except UnfoldError Schema}
    {property : Schema} : component.schema refer = .ok property ↔
      ∃ element, component.element refer = .ok element ∧ component.wrap element = property := by
  unfold schema
  cases component.element refer <;> simp [Functor.map, Except.map]

/-- Add components to an object one after the other, stopping at the first error. -/
def addAll (schemas : Component → Except UnfoldError Schema) :
    Schema → List Component → Except UnfoldError Schema
  | object, [] => .ok object
  | object, component :: rest => do
    let property ← schemas component
    let object := object.setProperty component.name property
    addAll schemas (if component.required then object.addRequired component.name else object) rest

/-- The object with one more component whose schema is given. -/
def addTo (component : Component) (property object : Schema) : Schema :=
  if component.required then
    (object.setProperty component.name property).addRequired component.name
  else object.setProperty component.name property

@[simp] theorem kind_addTo (component : Component) (property object : Schema) :
    (component.addTo property object).kind = object.kind := by
  unfold addTo
  split <;> rfl

@[simp] theorem items_addTo (component : Component) (property object : Schema) :
    (component.addTo property object).items = object.items := by
  unfold addTo
  split <;> rfl

@[simp] theorem properties_addTo (component : Component) (property object : Schema) :
    (component.addTo property object).properties =
      KeyedList.insert component.name property object.properties := by
  unfold addTo
  split <;> rfl

@[simp] theorem required_addTo (component : Component) (property object : Schema) :
    (component.addTo property object).required =
      if component.required then object.required.add component.name else object.required := by
  unfold addTo
  split <;> rfl

variable {schemas : Component → Except UnfoldError Schema} {object whole : Schema}

theorem addAll_nil_eq_ok_iff : addAll schemas object [] = .ok whole ↔ object = whole := by
  rw [addAll, Except.ok.injEq]

/-- The first component is added if it has a schema; the others follow. -/
theorem addAll_cons_eq_ok_iff {component : Component} {rest : List Component} :
    addAll schemas object (component :: rest) = .ok whole ↔
      ∃ property, schemas component = .ok property ∧
        addAll schemas (component.addTo property object) rest = .ok whole := by
  rw [addAll]
  cases schemas component with
  | error error =>
    refine iff_of_false (fun h => by cases h) ?_
    rintro ⟨_, h, -⟩
    cases h
  | ok property =>
    constructor
    · exact fun h => ⟨property, rfl, h⟩
    · rintro ⟨_, h, hr⟩
      cases h
      exact hr

end Component

namespace Catalog

/-- What decides the schemas of the fields of a type. -/
def componentsOf (catalog : Catalog) (id : TypeId) : List Component :=
  (catalog.fieldsOf id).map TypeField.component

/-- The object schema of a type; `schemas` gives those of its components. -/
def objectOf (catalog : Catalog) (schemas : Component → Except UnfoldError Schema)
    (id : TypeId) : Except UnfoldError Schema :=
  match catalog.type? id with
  | none => .error (.typeNotFound id)
  | some type =>
    Component.addAll schemas ((Node.bare .object).describedAs type.description)
      (catalog.componentsOf id)

/-- The schema of a type, following at most `slack` nested references. -/
def unfold (catalog : Catalog) (limit : Nat) : (slack : Nat) → TypeId → Except UnfoldError Schema
  | 0, id => catalog.objectOf (fun _ => .error (.limitExceeded limit)) id
  | slack + 1, id =>
    catalog.objectOf (fun component => component.schema (unfold catalog limit slack)) id
termination_by structural slack => slack

/-- The schema of a component, following at most `slack` nested references. -/
def unfoldComponent (catalog : Catalog) (limit : Nat) (component : Component) :
    (slack : Nat) → Except UnfoldError Schema
  | 0 => .error (.limitExceeded limit)
  | slack + 1 => component.schema (catalog.unfold limit slack)

/-- The schema of a type at some point of a descent. -/
def typeSchema (catalog : Catalog) (descent : Descent) (id : TypeId) :
    Except UnfoldError Schema :=
  catalog.unfold descent.limit descent.slack id

/-- The schema of a component at some point of a descent. -/
def componentSchema (catalog : Catalog) (descent : Descent) (component : Component) :
    Except UnfoldError Schema :=
  catalog.unfoldComponent descent.limit component descent.slack

/-- The schema of a type under a bound on nested references. -/
def schemaOf (catalog : Catalog) (limit : Nat) (id : TypeId) : Except UnfoldError Schema :=
  catalog.typeSchema { limit } id

/-- A component has no schema at the bound. Before it, it has one if the type that it refers to
has one at the next point. -/
theorem componentSchema_eq (catalog : Catalog) (descent : Descent) (component : Component) :
    catalog.componentSchema descent component =
      descent.check >>= fun _ => component.schema (catalog.typeSchema descent.next) := by
  have next : catalog.typeSchema descent.next =
      catalog.unfold descent.limit (descent.slack - 1) := by
    funext id
    rw [typeSchema, Descent.slack_next]
    rfl
  rw [componentSchema, next]
  cases room : descent.slack with
  | zero =>
    have stopped : descent.check = .error (.limitExceeded descent.limit) :=
      if_pos (Nat.le_of_sub_eq_zero room)
    rw [stopped]
    rfl
  | succ slack =>
    have passed : descent.check = .ok () :=
      Descent.check_eq_ok_iff.mpr (room ▸ Nat.succ_pos slack)
    rw [passed]
    rfl

/-- The schema of a type is made of those of its components at the same point. -/
theorem typeSchema_eq (catalog : Catalog) (descent : Descent) (id : TypeId) :
    catalog.typeSchema descent id = catalog.objectOf (catalog.componentSchema descent) id := by
  unfold typeSchema componentSchema
  cases descent.slack <;> rfl

end Catalog

end SchemaGate
