import SchemaGate.Catalog.CustomType
import SchemaGate.Catalog.Parameter
import SchemaGate.Proofs.Record.Forms

/-!
# The forms of stored records

Types, fields, parameters and whole stored records are read back from each form in which their
members can be written: as an object without members that hold their default, in any order, or
as a list in the order of declaration. The parts of stored records may be in any form of their
own.
-/

namespace SchemaGate

open Json (Draft)

namespace Read

theorem text_ofJson (value : String) : text (Draft.ofJson (.string value)) = .ok value := rfl

theorem flag_ofJson (value : Bool) : flag (Draft.ofJson (.bool value)) = .ok value := rfl

/-- Identifiers are read back over the whole range of keys. -/
theorem id_toJson {kind : IdKind} (id : Id kind) : Read.id (Draft.ofJson id.toJson) = .ok id := by
  have inside : Int64.minValue.toInt ≤ id.key.toInt ∧ id.key.toInt ≤ Int64.maxValue.toInt :=
    ⟨Int64.le_toInt id.key, Int64.toInt_le id.key⟩
  have key : integer (Draft.ofJson id.toJson) = .ok id.key := by
    rw [Id.toJson, Json.ofInt, Draft.ofJson, integer, if_pos inside, Int64.ofInt_toInt]
    rfl
  exact map_eq_ok_iff.mpr ⟨id.key, key, rfl⟩

/-- A reference is read back, null as none. -/
theorem optional_id_toJson (reference : Option TypeId) :
    optional Read.id (Draft.ofJson (referenceToJson reference)) = .ok reference := by
  cases reference with
  | none => rfl
  | some id => exact map_eq_ok_iff.mpr ⟨id, id_toJson id, rfl⟩

/-- A text that may be missing is read back, null as none. -/
theorem optional_text_toJson (value : Option String) :
    optional text (Draft.ofJson ((value.map Json.string).getD .null)) = .ok value := by
  cases value <;> rfl

end Read

theorem sorted_referenceToJson (reference : Option TypeId) :
    (referenceToJson reference).sorted = referenceToJson reference := by
  cases reference <;> rfl

/-- Kinds of fields are read back from their names. -/
theorem FieldKind.reader_name (kind : FieldKind) (origin : Origin) (room : Nat) :
    FieldKind.reader origin room (Draft.ofJson (.string kind.name)) = .ok kind := by
  cases kind <;> cases origin <;> rfl

/-- Sides of a call are read back from their names. -/
theorem Side.reader_name (side : Side) (origin : Origin) (room : Nat) :
    Side.reader origin room (Draft.ofJson (.string side.name)) = .ok side := by
  cases side <;> cases origin <;> rfl

/-- A list of forms is read back if each form is. -/
theorem Reader.list_ofJson {α : Type} {reader : Reader α} {form : α → Json → Prop}
    {origin : Origin} (read : ∀ item document, form item document → ∀ room,
      (Draft.ofJson document).nesting ≤ room →
      reader origin room (Draft.ofJson document) = .ok item)
    {items : List α} {documents : List Json} (h : List.Forall₂ form items documents) {room : Nat}
    (fit : (Draft.ofJson (.array documents)).nesting ≤ room) :
    reader.list origin room (Draft.ofJson (.array documents)) = .ok items := by
  obtain ⟨inner, rfl⟩ := Nat.exists_eq_add_one.mpr (Nat.lt_of_lt_of_le (Nat.succ_pos _) fit)
  rw [Draft.ofJson, Draft.nesting_array_le_iff, Draft.ofElements_eq_map, List.forall_mem_map] at fit
  have elements : (documents.map Draft.ofJson).mapM (reader origin inner) = .ok items := by
    induction h with
    | nil => rfl
    | cons written _ ih =>
      rw [List.forall_mem_cons] at fit
      rw [List.map_cons, List.mapM_cons, read _ _ written inner fit.1, ih fit.2]
      rfl
  rw [Draft.ofJson, Draft.ofElements_eq_map]
  exact elements

namespace Entry

variable {α β : Type} {layout : RecordLayout α} {defaults : List (String × Json)} {room : Nat}
  {name : String} {read : Draft → Read β} {part : Json} {value : β}

/-- A member that must be present takes an entry that is read as its value. -/
theorem fits_needed {put : α → β → α} (h : read (Draft.ofJson part) = .ok value)
    (absent : name ∉ KeyedList.keys defaults) :
    Fits layout defaults room (.needed name read put)
      ⟨name, part, fun record => put record value⟩ where
  name := rfl
  read _ record := Member.read_needed h record
  default held := absurd (List.mem_map_of_mem held) absent

/-- So does a member that may be left out, if the blank record holds its default. -/
theorem fits_defaulted {put : α → β → α}
    (h : (Draft.ofJson part).nesting ≤ room → read (Draft.ofJson part) = .ok value)
    (blank : (name, part) ∈ defaults → put layout.blank value = layout.blank) :
    Fits layout defaults room (.defaulted name read put)
      ⟨name, part, fun record => put record value⟩ where
  name := rfl
  read shallow record := Member.read_defaulted (h shallow) record
  default held := ⟨rfl, blank held⟩

/-- A part that every value is read back from tells its value, so the blank record need only hold
the default itself. -/
theorem fits_usual {encode : β → Json}
    (reads : ∀ value, read (Draft.ofJson (encode value)) = .ok value) {put : α → β → α}
    (value : β) {usual : β} (only : ∀ part, (name, part) ∈ defaults → part = encode usual)
    (blank : put layout.blank usual = layout.blank) :
    Fits layout defaults room (.defaulted name read put)
      ⟨name, encode value, fun record => put record value⟩ := by
  refine fits_defaulted (fun _ => reads value) fun held => ?_
  have told : read (Draft.ofJson (encode usual)) = .ok value := only _ held ▸ reads value
  rw [Except.ok.inj (told.symm.trans (reads usual))]
  exact blank

end Entry

namespace CustomType

/-- What a type holds unless it is said. -/
def defaults : List (String × Json) := [("description", .string "")]

/-- The document is a form of the type. -/
def HasForm (type : CustomType) (document : Json) : Prop :=
  ∃ members, type.toDocument = .object members ∧ MembersForm defaults members document

/-- The members of a type as they are written and read. -/
def entries (type : CustomType) : List (Entry CustomType) := [
  ⟨"id", type.id.toJson, fun other => { other with id := type.id }⟩,
  ⟨"app_id", type.app.toJson, fun other => { other with app := type.app }⟩,
  ⟨"name", .string type.name, fun other => { other with name := type.name }⟩,
  ⟨"description", .string type.description,
    fun other => { other with description := type.description }⟩]

theorem fills_entries (type : CustomType) (room : Nat) :
    layout.Fills defaults room type.entries type where
  fits := by
    refine .cons ?_ (.cons ?_ (.cons ?_ (.cons ?_ .nil)))
    · exact Entry.fits_needed (Read.id_toJson type.id) (by decide)
    · exact Entry.fits_needed (Read.id_toJson type.app) (by decide)
    · exact Entry.fits_needed (Read.text_ofJson type.name) (by decide)
    · exact Entry.fits_usual Read.text_ofJson type.description (by simp [defaults]) rfl
  distinct := by simp [entries]
  commutes := by simp [entries, Entry.Commutes]
  whole _ := rfl

/-- A type is read from each of its forms. -/
theorem reader_of_hasForm (origin : Origin) (type : CustomType) (document : Json)
    (h : type.HasForm document) (room : Nat) (fit : (Draft.ofJson document).nesting ≤ room) :
    reader origin room (Draft.ofJson document) = .ok type := by
  obtain ⟨members, written, form⟩ := h
  obtain ⟨inner, rfl⟩ := form.exists_room fit
  obtain rfl : type.entries.map Entry.member = members := Json.object.inj written
  exact (type.fills_entries inner).read form fit origin

/-- The value of a type is one of its forms. -/
theorem hasForm_sorted (type : CustomType) : type.HasForm type.toDocument.sorted := by
  refine ⟨_, rfl, .sorted (by simp [KeyedList.keys]) ?_ defaults⟩
  simp [Id.toJson, Json.ofInt, Json.sorted]

end CustomType

namespace TypeField

/-- What a field holds unless it is said. -/
def defaults : List (String × Json) :=
  [("ref", .null), ("is_array", .bool false), ("required", .bool false),
    ("description", .string "")]

/-- The document is a form of the field. -/
def HasForm (field : TypeField) (document : Json) : Prop :=
  ∃ members, field.toDocument = .object members ∧ MembersForm defaults members document

/-- The members of a field as they are written and read. -/
def entries (field : TypeField) : List (Entry TypeField) := [
  ⟨"id", field.id.toJson, fun other => { other with id := field.id }⟩,
  ⟨"custom_type_id", field.owner.toJson, fun other => { other with owner := field.owner }⟩,
  ⟨"name", .string field.name, fun other => { other with name := field.name }⟩,
  ⟨"type", .string field.kind.name, fun other => { other with kind := field.kind }⟩,
  ⟨"ref", referenceToJson field.reference,
    fun other => { other with reference := field.reference }⟩,
  ⟨"is_array", .bool field.isArray, fun other => { other with isArray := field.isArray }⟩,
  ⟨"required", .bool field.required, fun other => { other with required := field.required }⟩,
  ⟨"description", .string field.description,
    fun other => { other with description := field.description }⟩]

theorem fills_entries (field : TypeField) (origin : Origin) (room : Nat) :
    (layout origin room).Fills defaults room field.entries field where
  fits := by
    refine .cons ?_ (.cons ?_ (.cons ?_ (.cons ?_ (.cons ?_ (.cons ?_ (.cons ?_
      (.cons ?_ .nil)))))))
    · exact Entry.fits_needed (Read.id_toJson field.id) (by decide)
    · exact Entry.fits_needed (Read.id_toJson field.owner) (by decide)
    · exact Entry.fits_needed (Read.text_ofJson field.name) (by decide)
    · exact Entry.fits_needed (FieldKind.reader_name field.kind origin room) (by decide)
    · exact Entry.fits_usual Read.optional_id_toJson field.reference
        (by simp [defaults, referenceToJson]) rfl
    · exact Entry.fits_usual Read.flag_ofJson field.isArray (by simp [defaults]) rfl
    · exact Entry.fits_usual Read.flag_ofJson field.required (by simp [defaults]) rfl
    · exact Entry.fits_usual Read.text_ofJson field.description (by simp [defaults]) rfl
  distinct := by simp [entries]
  commutes := by simp [entries, Entry.Commutes]
  whole _ := rfl

/-- A field is read from each of its forms. -/
theorem reader_of_hasForm (origin : Origin) (field : TypeField) (document : Json)
    (h : field.HasForm document) (room : Nat) (fit : (Draft.ofJson document).nesting ≤ room) :
    reader origin room (Draft.ofJson document) = .ok field := by
  obtain ⟨members, written, form⟩ := h
  obtain ⟨inner, rfl⟩ := form.exists_room fit
  obtain rfl : field.entries.map Entry.member = members := Json.object.inj written
  exact (field.fills_entries origin inner).read form fit origin

/-- The value of a field is one of its forms. -/
theorem hasForm_sorted (field : TypeField) : field.HasForm field.toDocument.sorted := by
  refine ⟨_, rfl, .sorted (by simp [KeyedList.keys]) ?_ defaults⟩
  simp [sorted_referenceToJson, Id.toJson, Json.ofInt, Json.sorted]

end TypeField

namespace Parameter

/-- What a parameter holds unless it is said. -/
def defaults : List (String × Json) :=
  [("ref", .null), ("is_array", .bool false), ("required", .bool false),
    ("description", .string ""), ("default_value", .null)]

/-- The document is a form of the parameter. -/
def HasForm (param : Parameter) (document : Json) : Prop :=
  ∃ members, param.toDocument = .object members ∧ MembersForm defaults members document

/-- The members of a parameter as they are written and read. -/
def entries (param : Parameter) : List (Entry Parameter) := [
  ⟨"id", param.id.toJson, fun other => { other with id := param.id }⟩,
  ⟨"interface_id", param.interface.toJson,
    fun other => { other with interface := param.interface }⟩,
  ⟨"app_id", param.app.toJson, fun other => { other with app := param.app }⟩,
  ⟨"name", .string param.name, fun other => { other with name := param.name }⟩,
  ⟨"type", .string param.kind.name, fun other => { other with kind := param.kind }⟩,
  ⟨"ref", referenceToJson param.reference,
    fun other => { other with reference := param.reference }⟩,
  ⟨"is_array", .bool param.isArray, fun other => { other with isArray := param.isArray }⟩,
  ⟨"required", .bool param.required, fun other => { other with required := param.required }⟩,
  ⟨"description", .string param.description,
    fun other => { other with description := param.description }⟩,
  ⟨"group", .string param.side.name, fun other => { other with side := param.side }⟩,
  ⟨"default_value", (param.defaultValue.map Json.string).getD .null,
    fun other => { other with defaultValue := param.defaultValue }⟩]

theorem fills_entries (param : Parameter) (origin : Origin) (room : Nat) :
    (layout origin room).Fills defaults room param.entries param where
  fits := by
    refine .cons ?_ (.cons ?_ (.cons ?_ (.cons ?_ (.cons ?_ (.cons ?_ (.cons ?_ (.cons ?_
      (.cons ?_ (.cons ?_ (.cons ?_ .nil))))))))))
    · exact Entry.fits_needed (Read.id_toJson param.id) (by decide)
    · exact Entry.fits_needed (Read.id_toJson param.interface) (by decide)
    · exact Entry.fits_needed (Read.id_toJson param.app) (by decide)
    · exact Entry.fits_needed (Read.text_ofJson param.name) (by decide)
    · exact Entry.fits_needed (FieldKind.reader_name param.kind origin room) (by decide)
    · exact Entry.fits_usual Read.optional_id_toJson param.reference
        (by simp [defaults, referenceToJson]) rfl
    · exact Entry.fits_usual Read.flag_ofJson param.isArray (by simp [defaults]) rfl
    · exact Entry.fits_usual Read.flag_ofJson param.required (by simp [defaults]) rfl
    · exact Entry.fits_usual Read.text_ofJson param.description (by simp [defaults]) rfl
    · exact Entry.fits_needed (Side.reader_name param.side origin room) (by decide)
    · exact Entry.fits_usual Read.optional_text_toJson param.defaultValue (by simp [defaults]) rfl
  distinct := by simp [entries]
  commutes := by simp [entries, Entry.Commutes]
  whole _ := rfl

/-- A parameter is read from each of its forms. -/
theorem reader_of_hasForm (origin : Origin) (param : Parameter) (document : Json)
    (h : param.HasForm document) (room : Nat) (fit : (Draft.ofJson document).nesting ≤ room) :
    reader origin room (Draft.ofJson document) = .ok param := by
  obtain ⟨members, written, form⟩ := h
  obtain ⟨inner, rfl⟩ := form.exists_room fit
  obtain rfl : param.entries.map Entry.member = members := Json.object.inj written
  exact (param.fills_entries origin inner).read form fit origin

/-- The value of a parameter is one of its forms. -/
theorem hasForm_sorted (param : Parameter) : param.HasForm param.toDocument.sorted := by
  have value : ((param.defaultValue.map Json.string).getD .null).sorted =
      (param.defaultValue.map Json.string).getD .null := by
    cases param.defaultValue <;> rfl
  refine ⟨_, rfl, .sorted (by simp [KeyedList.keys]) ?_ defaults⟩
  simp [sorted_referenceToJson, value, Id.toJson, Json.ofInt, Json.sorted]

end Parameter

namespace StoredRecords

/-- What stored records hold unless it is said. -/
def defaults : List (String × Json) := [("types", .array []), ("fields", .array [])]

/-- The document is a form of the records, whose types and fields stand in forms of theirs. -/
def HasForm (records : StoredRecords) (document : Json) : Prop :=
  ∃ types fields : List Json, List.Forall₂ CustomType.HasForm records.types types ∧
    List.Forall₂ TypeField.HasForm records.fields fields ∧
    MembersForm defaults [("types", .array types), ("fields", .array fields)] document

/-- The two members of stored records as they are written and read. -/
def entries (records : StoredRecords) (types fields : List Json) : List (Entry StoredRecords) := [
  ⟨"types", .array types, fun other => { other with types := records.types }⟩,
  ⟨"fields", .array fields, fun other => { other with fields := records.fields }⟩]

theorem fills_entries {records : StoredRecords} {types fields : List Json}
    (typeForms : List.Forall₂ CustomType.HasForm records.types types)
    (fieldForms : List.Forall₂ TypeField.HasForm records.fields fields) (origin : Origin)
    (room : Nat) :
    (layout origin room).Fills defaults room (records.entries types fields) records where
  fits := by
    refine .cons ?_ (.cons ?_ .nil)
    · refine Entry.fits_defaulted
        (Reader.list_ofJson (CustomType.reader_of_hasForm origin) typeForms) fun held => ?_
      have none : types = [] := by simpa [defaults] using held
      rw [none, List.forall₂_nil_right_iff] at typeForms
      rw [typeForms]
      rfl
    · refine Entry.fits_defaulted
        (Reader.list_ofJson (TypeField.reader_of_hasForm origin) fieldForms) fun held => ?_
      have none : fields = [] := by simpa [defaults] using held
      rw [none, List.forall₂_nil_right_iff] at fieldForms
      rw [fieldForms]
      rfl
  distinct := by simp [entries]
  commutes := by simp [entries, Entry.Commutes]
  whole _ := rfl

/-- Stored records are read from each of their forms. -/
theorem reader_of_hasForm (origin : Origin) (records : StoredRecords) (document : Json)
    (h : records.HasForm document) (room : Nat) (fit : (Draft.ofJson document).nesting ≤ room) :
    reader origin room (Draft.ofJson document) = .ok records := by
  obtain ⟨types, fields, typeForms, fieldForms, form⟩ := h
  obtain ⟨inner, rfl⟩ := form.exists_room fit
  exact (fills_entries typeForms fieldForms origin inner).read form fit origin

/-- The value of stored records is one of their forms. -/
theorem hasForm_sorted (records : StoredRecords) : records.HasForm records.toDocument.sorted := by
  let types := records.types.map fun type => type.toDocument.sorted
  let fields := records.fields.map fun field => field.toDocument.sorted
  have document : records.toDocument.sorted =
      (Json.object [("types", .array types), ("fields", .array fields)]).sorted := by
    simp [toDocument, types, fields, Json.sorted, Json.sortedMembers, Json.sortedElements_eq_map,
      Json.sorted_sorted, Function.comp_def]
  have typeForms : List.Forall₂ CustomType.HasForm records.types types :=
    List.forall₂_map_right_iff.mpr (List.forall₂_same.mpr fun type _ => type.hasForm_sorted)
  have fieldForms : List.Forall₂ TypeField.HasForm records.fields fields :=
    List.forall₂_map_right_iff.mpr (List.forall₂_same.mpr fun field _ => field.hasForm_sorted)
  refine ⟨types, fields, typeForms, fieldForms, document ▸ .sorted (by simp [KeyedList.keys]) ?_ _⟩
  simp [types, fields, Json.sorted, Json.sortedElements_eq_map, Json.sorted_sorted,
    Function.comp_def]

/-- A list of the two lists is another one. -/
theorem hasForm_positional (records : StoredRecords) :
    records.HasForm records.toDocument.positional := by
  have typeForms : List.Forall₂ CustomType.HasForm records.types
      (records.types.map CustomType.toDocument) :=
    List.forall₂_map_right_iff.mpr (List.forall₂_same.mpr fun _ _ => ⟨_, rfl, .whole _ _⟩)
  have fieldForms : List.Forall₂ TypeField.HasForm records.fields
      (records.fields.map TypeField.toDocument) :=
    List.forall₂_map_right_iff.mpr (List.forall₂_same.mpr fun _ _ => ⟨_, rfl, .whole _ _⟩)
  exact ⟨_, _, typeForms, fieldForms, .positional _ _⟩

end StoredRecords

/-- Stored records, parameters and fields are read back from their values, from the lists of their
members in the order of declaration, and from each other form: members in any order, and any of
those left out that have a default and hold it. -/
theorem stored_forms_read_back :
    (∀ records : StoredRecords,
      StoredRecords.reader.ofJson records.toDocument.sorted = .ok records ∧
      StoredRecords.reader.ofJson records.toDocument.positional = .ok records ∧
      ∀ document, records.HasForm document →
        StoredRecords.reader.ofJson document = .ok records) ∧
    (∀ param : Parameter,
      Parameter.reader.ofJson param.toDocument.sorted = .ok param ∧
      Parameter.reader.ofJson param.toDocument.positional = .ok param ∧
      ∀ document, param.HasForm document → Parameter.reader.ofJson document = .ok param) ∧
    (∀ field : TypeField,
      TypeField.reader.ofJson field.toDocument.sorted = .ok field ∧
      TypeField.reader.ofJson field.toDocument.positional = .ok field ∧
      ∀ document, field.HasForm document → TypeField.reader.ofJson document = .ok field) := by
  refine ⟨fun records => ?_, fun param => ?_, fun field => ?_⟩
  · have read : ∀ document, records.HasForm document →
        StoredRecords.reader.ofJson document = .ok records :=
      fun document form => records.reader_of_hasForm .value document form _ (Nat.le_refl _)
    exact ⟨read _ records.hasForm_sorted, read _ records.hasForm_positional, read⟩
  · have read : ∀ document, param.HasForm document →
        Parameter.reader.ofJson document = .ok param :=
      fun document form => param.reader_of_hasForm .value document form _ (Nat.le_refl _)
    exact ⟨read _ param.hasForm_sorted, read _ ⟨_, rfl, .positional _ _⟩, read⟩
  · have read : ∀ document, field.HasForm document →
        TypeField.reader.ofJson document = .ok field :=
      fun document form => field.reader_of_hasForm .value document form _ (Nat.le_refl _)
    exact ⟨read _ field.hasForm_sorted, read _ ⟨_, rfl, .positional _ _⟩, read⟩

/-- A type and a field with the outermost keys. -/
def itinerary : StoredRecords where
  types := [{ id := ⟨Int64.minValue⟩, app := ⟨7⟩, name := "Trip" }]
  fields := [{
    id := ⟨Int64.maxValue⟩, owner := ⟨Int64.minValue⟩, name := "leg", kind := .custom
    reference := some ⟨-1⟩, required := true }]

/-- The type as a list without its description. -/
def tripForm : Json := .array [.ofInt (-9223372036854775808), .ofInt 7, .string "Trip"]

/-- The field as an object without two members that hold their defaults. -/
def legForm : Json := .object [
  ("required", .bool true), ("type", .string "custom"), ("ref", .ofInt (-1)),
  ("name", .string "leg"), ("custom_type_id", .ofInt (-9223372036854775808)),
  ("id", .ofInt 9223372036854775807)]

/-- A parameter without a default value. -/
def seats : Parameter where
  id := ⟨1⟩
  interface := ⟨2⟩
  app := ⟨7⟩
  name := "seats"
  kind := .number
  side := .input

/-- The parameter up to its group, which must be said. -/
def seatsForm : Json := .array [
  .ofInt 1, .ofInt 2, .ofInt 7, .string "seats", .string "number", .null, .bool false,
  .bool false, .string "", .string "input"]

theorem stored_forms_read_back_itinerary :
    itinerary.HasForm (.object [("fields", .array [legForm]), ("types", .array [tripForm])]) ∧
    StoredRecords.reader.ofJson
      (.object [("fields", .array [legForm]), ("types", .array [tripForm])]) = .ok itinerary ∧
    seats.HasForm seatsForm ∧ Parameter.reader.ofJson seatsForm = .ok seats ∧
    ∀ field ∈ itinerary.fields, field.HasForm legForm ∧
      TypeField.reader.ofJson legForm = .ok field := by
  have trip : ∀ type ∈ itinerary.types, type.HasForm tripForm := by
    rintro type hm
    obtain rfl := List.mem_singleton.mp hm
    refine ⟨_, rfl, @MembersForm.list _ _ [_, _, _] [_] rfl ?_⟩
    simp [CustomType.defaults]
  have leg : ∀ field ∈ itinerary.fields, field.HasForm legForm := by
    rintro field hm
    obtain rfl := List.mem_singleton.mp hm
    refine ⟨_, rfl, @MembersForm.object _ _ _
      [("is_array", .bool false), ("description", .string "")] (by decide) ?_⟩
    simp [TypeField.defaults]
  have seated : seats.HasForm seatsForm := by
    refine ⟨_, rfl, @MembersForm.list _ _ [_, _, _, _, _, _, _, _, _, _] [_] rfl ?_⟩
    simp [Parameter.defaults, seats]
  have trips : itinerary.HasForm
      (.object [("fields", .array [legForm]), ("types", .array [tripForm])]) := by
    refine ⟨[tripForm], [legForm], .cons (trip _ List.mem_cons_self) .nil,
      .cons (leg _ List.mem_cons_self) .nil, @MembersForm.object _ _ _ [] (by decide) ?_⟩
    exact List.nil_subset _
  obtain ⟨records, params, fields⟩ := stored_forms_read_back
  exact ⟨trips, (records itinerary).2.2 _ trips, seated, (params seats).2.2 _ seated,
    fun field hm => ⟨leg field hm, (fields field).2.2 _ (leg field hm)⟩⟩

end SchemaGate
