import SchemaGate.Json.Draft
import SchemaGate.NameSet
import SchemaGate.Record.Fault

/-!
# Reading records

A reader turns the draft of a document into a value of some type, walking it in
written order and stopping at the first fault. The same readers serve a document that
is a value already and one that comes straight from a text; `Origin` says which. The
two differ where a text is cut off instead of being measured: a list that is too long
or an enumeration with other than one key has a fault of shape in a value, and is no
document in a text. `room` is how many more brackets may be opened; a value is given
as much as it needs.
-/

namespace SchemaGate

open Json (Draft)

/-- Where a draft comes from. -/
inductive Origin where
  /-- A value, read as a whole before. -/
  | value
  /-- A text, read as far as the reader asks. -/
  | text
  deriving DecidableEq, Repr

/-- The outcome of reading. -/
abbrev Read (α : Type) := Except ReadFault α

/-- A reader of drafts from some origin, with room for a number of brackets. -/
abbrev Reader (α : Type) := (origin : Origin) → (room : Nat) → Draft → Read α

namespace Read

/-- The text is no document. -/
def malformed {α : Type} : Read α := .error .malformed

/-- The document has the wrong shape. -/
def fault {α : Type} (fault : ShapeFault) : Read α := .error (.shape fault)

/-- What stands in a draft. Scalars are read as a whole, brackets only seen. -/
def found : Draft → Read Found
  | .null => pure .null
  | .bool value => pure (.bool value)
  | .number (some value) => pure (.number value)
  | .string (some value) => pure (.text value)
  | .array _ => pure .sequence
  | .object _ => pure .map
  | _ => malformed

/-- Something else was wanted than what stands in the draft. -/
def mismatch {α : Type} (expected : Expected) (draft : Draft) : Read α := do
  fault (.mismatch (← found draft) expected)

/-- A text. -/
def text : Draft → Read String
  | .string (some value) => pure value
  | draft => mismatch .text draft

/-- A truth value. -/
def flag : Draft → Read Bool
  | .bool value => pure value
  | draft => mismatch .flag draft

/-- A signed integer of 64 bits; a float never is one. -/
def integer : Draft → Read Int64
  | .number (some (.int value)) =>
    if Int64.minValue.toInt ≤ value ∧ value ≤ Int64.maxValue.toInt then
      pure (Int64.ofInt value)
    else fault (.outOfRange value)
  | draft => mismatch .integer draft

/-- Nothing beside a name. -/
def unit : Draft → Read Unit
  | .null => pure ()
  | draft => mismatch .unit draft

/-- Null for none, or what an inner reader reads. -/
def optional {α : Type} (read : Draft → Read α) : Draft → Read (Option α)
  | .null => pure none
  | draft => some <$> read draft

/-- The elements of a list. -/
def elements {α : Type} (room : Nat) (expected : Expected) (read : Draft → Read α) :
    Draft → Read (List α)
  | .array drafts => if room = 0 then malformed else drafts.mapM read
  | draft => mismatch expected draft

/-- A set of texts, in the order in which they first occur. -/
def textSet (room : Nat) (draft : Draft) : Read NameSet := do
  let texts ← elements room .set text draft
  return NameSet.ofList texts

/-- Named parts: a repeated name keeps its first place and takes its last part. -/
def parts {α : Type} (room : Nat) (read : Draft → Read α) : Draft → Read (KeyedList String α)
  | .object members =>
    if room = 0 then malformed
    else do
      let entries ← members.mapM fun (key, draft) => do
        match key with
        | none => malformed
        | some key => return (key, ← read draft)
      return KeyedList.ofList entries
  | draft => mismatch .map draft

/-- The variant of a given name. -/
def variantNamed {α : Type} (variants : List (String × α)) (name : String) : Read α :=
  match KeyedList.find? name variants with
  | some variant => pure variant
  | none => fault (.unknownVariant name (variants.map Prod.fst))

section Success

variable {α β γ : Type}

/-- Two steps of reading succeed if the first one does, and the second one on what it read. -/
theorem bind_eq_ok_iff {first : Read α} {next : α → Read β} {outcome : β} :
    first >>= next = .ok outcome ↔ ∃ value, first = .ok value ∧ next value = .ok outcome := by
  cases first <;> simp [bind, Except.bind]

theorem map_eq_ok_iff {f : α → β} {first : Read α} {outcome : β} :
    f <$> first = .ok outcome ↔ ∃ value, first = .ok value ∧ f value = outcome := by
  cases first <;> simp [Functor.map, Except.map]

theorem mismatch_ne_ok {expected : Expected} {draft : Draft} {outcome : α} :
    mismatch expected draft ≠ .ok outcome := by
  intro h
  obtain ⟨found, -, h⟩ := bind_eq_ok_iff.mp h
  cases h

/-- Elements that are read one by one are read as a list. -/
theorem mapM_map_eq_ok {read : α → Read β} {encode : γ → α} {f : γ → β}
    {items : List γ} (h : ∀ item ∈ items, read (encode item) = .ok (f item)) :
    (items.map encode).mapM read = .ok (items.map f) := by
  induction items with
  | nil => rfl
  | cons item rest ih =>
    rw [List.map_cons, List.mapM_cons, h item List.mem_cons_self,
      ih fun other ho => h other (List.mem_cons_of_mem _ ho)]
    rfl

/-- Everything in a list that was read was read of some element. -/
theorem exists_of_mapM_eq_ok {read : α → Read β} {elements : List α} {outcomes : List β}
    (h : elements.mapM read = .ok outcomes) :
    ∀ outcome ∈ outcomes, ∃ element ∈ elements, read element = .ok outcome := by
  induction elements generalizing outcomes with
  | nil =>
    obtain rfl := Except.ok.inj h
    exact fun _ hm => absurd hm List.not_mem_nil
  | cons element rest ih =>
    rw [List.mapM_cons] at h
    obtain ⟨first, hf, h⟩ := bind_eq_ok_iff.mp h
    obtain ⟨others, hr, h⟩ := bind_eq_ok_iff.mp h
    obtain rfl := Except.ok.inj h
    intro outcome hm
    rcases List.mem_cons.mp hm with rfl | hm
    · exact ⟨element, List.mem_cons_self, hf⟩
    · obtain ⟨other, ho, hread⟩ := ih hr outcome hm
      exact ⟨other, List.mem_cons_of_mem _ ho, hread⟩

/-- The names of a set are read back as the set. -/
theorem textSet_ofStrings (set : NameSet) {room : Nat} (hr : 0 < room) :
    textSet room (Draft.ofJson (Json.ofStrings set)) = .ok set := by
  have texts : ((set.names.map Json.string).map Draft.ofJson).mapM text = .ok set.names := by
    have each : ∀ name ∈ set.names, text (Draft.ofJson (Json.string name)) = .ok (id name) :=
      fun _ _ => rfl
    rw [List.map_map]
    exact (mapM_map_eq_ok each).trans (by rw [List.map_id])
  rw [Json.ofStrings, Draft.ofJson, Draft.ofElements_eq_map, textSet, elements,
    if_neg (Nat.ne_of_gt hr), texts]
  exact congrArg Except.ok set.ofList_names

/-- Parts under distinct names are read back as they are. -/
theorem parts_ofJson (encode : γ → Json) (decoded : γ → β) {items : List (String × γ)}
    {room : Nat} {read : Draft → Read β} (hn : (KeyedList.keys items).Nodup) (hr : 0 < room)
    (h : ∀ item ∈ items, read (Draft.ofJson (encode item.2)) = .ok (decoded item.2)) :
    parts room read (Draft.ofJson (.object (items.map fun item => (item.1, encode item.2)))) =
      .ok (items.map fun item => (item.1, decoded item.2)) := by
  rw [Draft.ofJson, Draft.ofMembers_eq_map, List.map_map, parts, if_neg (Nat.ne_of_gt hr),
    mapM_map_eq_ok (f := fun item => (item.1, decoded item.2))]
  · have distinct := (KeyedList.keys_map decoded items).symm ▸ hn
    exact congrArg Except.ok (KeyedList.ofList_of_nodup distinct)
  · intro item hm
    simp only [Function.comp_apply, h item hm]
    rfl

/-- Named parts have distinct names, and each was read of some draft. -/
theorem of_parts_eq_ok {room : Nat} {read : Draft → Read β} {draft : Draft}
    {outcome : KeyedList String β} (h : parts room read draft = .ok outcome) :
    outcome.keys.Nodup ∧ ∀ part ∈ outcome, ∃ inner, read inner = .ok part.2 := by
  unfold parts at h
  split at h
  · split at h
    · cases h
    · obtain ⟨entries, he, h⟩ := bind_eq_ok_iff.mp h
      obtain rfl := Except.ok.inj h
      refine ⟨KeyedList.nodup_keys_ofList entries, fun part hm => ?_⟩
      obtain ⟨⟨key, inner⟩, -, hread⟩ :=
        exists_of_mapM_eq_ok he part (KeyedList.mem_of_mem_ofList hm)
      refine ⟨inner, ?_⟩
      cases key with
      | none => cases hread
      | some key =>
        obtain ⟨value, hv, h⟩ := bind_eq_ok_iff.mp hread
        obtain rfl := Except.ok.inj h
        exact hv
  · exact absurd h mismatch_ne_ok

end Success

end Read

namespace Reader

variable {α : Type}

/-- One of a few names: a text, or an object with that name as its only key over null. -/
def variant (variants : List (String × α)) : Reader α := fun origin room draft =>
  match origin, draft with
  | _, .string (some name) => Read.variantNamed variants name
  | .value, .object [(some name, inner)] => do
    let variant ← Read.variantNamed variants name
    Read.unit inner
    return variant
  | .value, .object _ => Read.fault .keyCount
  | .value, draft => Read.mismatch .variant draft
  | .text, .object ((some name, inner) :: rest) =>
    if room = 0 then Read.malformed
    else do
      let variant ← Read.variantNamed variants name
      Read.unit inner
      if rest.isEmpty then return variant else Read.malformed
  | .text, _ => Read.malformed

/-- A list, each element read by an inner reader. -/
def list (reader : Reader α) : Reader (List α) := fun origin room =>
  Read.elements room .sequence (reader origin (room - 1))

/-- Read a text, in which nothing may follow the document. -/
def ofText (reader : Reader α) (text : String) : Read α := do
  let (draft, clean) := Draft.ofText text
  let value ← reader .text Json.maxNesting draft
  if clean then return value else Read.malformed

/-- Read a value. -/
def ofJson (reader : Reader α) (value : Json) : Read α :=
  let draft := Draft.ofJson value
  reader .value draft.nesting draft

end Reader

end SchemaGate
