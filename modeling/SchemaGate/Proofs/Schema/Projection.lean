import Mathlib.Order.Bounds.Defs
import SchemaGate.Proofs.Json.PartOrder
import SchemaGate.Schema.Conformance

/-!
# Pruning is projection onto what conforms

What a schema keeps of a value is part of the value and conforms to the schema. Nothing
that conforms is lost on the way: every conforming part of the value is part of what is
kept. So among the conforming parts of a value the kept one is the greatest, null stands
for there being none, and pruning twice is pruning once.
-/

namespace SchemaGate

namespace Json

/-- Keeping parts of some elements, in their order, gives parts of the elements. -/
theorem partElements_filterMap {f : Json → Option Json} {elements : List Json}
    (h : ∀ element ∈ elements, ∀ kept, f element = some kept → Part kept element) :
    PartElements (elements.filterMap f) elements := by
  induction elements with
  | nil => exact .nil
  | cons element rest ih =>
    rw [List.forall_mem_cons] at h
    cases hf : f element with
    | none =>
      rw [List.filterMap_cons_none hf]
      exact .drop element (ih h.2)
    | some kept =>
      rw [List.filterMap_cons_some hf]
      exact .keep (h.1 kept hf) (ih h.2)

/-- Elements of a sort are parts of what is kept, if each part of that sort of an element
is part of what is kept of the element. -/
theorem partElements_filterMap_of_forall {f : Json → Option Json} {sort : Json → Prop}
    {parts elements : List Json}
    (hf : ∀ element ∈ elements, ∀ part, Part part element → sort part →
      ∃ kept, f element = some kept ∧ Part part kept)
    (h : PartElements parts elements) (hs : ∀ part ∈ parts, sort part) :
    PartElements parts (elements.filterMap f) := by
  induction elements generalizing parts with
  | nil => exact h
  | cons element rest ih =>
    rw [List.forall_mem_cons] at hf
    cases h with
    | drop _ h =>
      cases hk : f element with
      | none =>
        rw [List.filterMap_cons_none hk]
        exact ih hf.2 h hs
      | some kept =>
        rw [List.filterMap_cons_some hk]
        exact .drop kept (ih hf.2 h hs)
    | keep hp h =>
      rw [List.forall_mem_cons] at hs
      obtain ⟨kept, hk, hpart⟩ := hf.1 _ hp hs.1
      rw [List.filterMap_cons_some hk]
      exact .keep hpart (ih hf.2 h hs.2)

end Json

namespace Node

variable {ι : Type}

/-- Under a declared name stands what the property keeps of the member of that name. -/
theorem find?_pruneMembers {properties : List (String × Node ι)} (members : List (String × Json))
    (hn : (KeyedList.keys properties).Nodup) (key : String) :
    KeyedList.find? key (pruneMembers properties members) =
      (KeyedList.find? key properties).bind fun child =>
        (KeyedList.find? key members).bind child.prune? := by
  induction properties with
  | nil => rfl
  | cons property rest ih =>
    obtain ⟨name, child⟩ := property
    obtain ⟨hk, hr⟩ := List.nodup_cons.mp hn
    have absent : KeyedList.find? name rest = none := KeyedList.find?_eq_none_iff.mpr hk
    rw [pruneMembers, KeyedList.find?]
    by_cases he : name = key
    · subst he
      rw [if_pos rfl]
      cases hp : (KeyedList.find? name members).bind fun field => child.prune? field with
      | none => simp [ih hr, absent, hp]
      | some kept => simp [KeyedList.find?, hp]
    · rw [if_neg he, ← ih hr]
      cases (KeyedList.find? name members).bind fun field => child.prune? field with
      | none => rfl
      | some kept => simp [KeyedList.find?, he]

/-- Kept members stand under declared names, in the order of the declarations. -/
theorem keys_pruneMembers_sublist (properties : List (String × Node ι))
    (members : List (String × Json)) :
    (KeyedList.keys (pruneMembers properties members)).Sublist (KeyedList.keys properties) := by
  induction properties with
  | nil => exact List.Sublist.refl _
  | cons property rest ih =>
    obtain ⟨name, child⟩ := property
    rw [pruneMembers]
    cases (KeyedList.find? name members).bind fun field => child.prune? field with
    | none => exact ih.cons name
    | some kept => exact ih.cons_cons name

/-- Sorting the kept members changes nothing that is found among them. -/
theorem find?_sorted_pruneMembers {node : Node ι} (h : node.WellFormed)
    (members : List (String × Json)) (key : String) :
    KeyedList.find? key (KeyedList.sorted (pruneMembers node.properties members)) =
      (KeyedList.find? key node.properties).bind fun child =>
        (KeyedList.find? key members).bind child.prune? := by
  have nodup := h.nodup_keys.sublist (keys_pruneMembers_sublist node.properties members)
  rw [KeyedList.find?_sorted nodup, find?_pruneMembers members h.nodup_keys]

/-- What is found among kept members is what a declared property keeps of a member. -/
theorem find?_sorted_pruneMembers_eq_some_iff {node : Node ι} (h : node.WellFormed)
    {members : List (String × Json)} {key : String} {kept : Json} :
    KeyedList.find? key (KeyedList.sorted (pruneMembers node.properties members)) = some kept ↔
      ∃ child whole, KeyedList.find? key node.properties = some child ∧
        KeyedList.find? key members = some whole ∧ child.prune? whole = some kept := by
  rw [find?_sorted_pruneMembers h]
  cases KeyedList.find? key node.properties with
  | none => simp
  | some child =>
    cases KeyedList.find? key members with
    | none => simp
    | some whole => simp

/-- What is kept of a value is the value itself where it conforms as a scalar does, the
kept elements of an array, or the kept members of an object in rising order. -/
theorem prune?_cases {node : Node ι} {value kept : Json} (h : node.prune? value = some kept) :
    (kept = value ∧ node.Conforms value) ∨
    (∃ elements, node.kind = .array ∧ value = .array elements ∧
      kept = .array (pruneElements node.items elements)) ∨
    ∃ members, node.kind = .object ∧ value = .object members ∧
      kept = .object (KeyedList.sorted (pruneMembers node.properties members)) := by
  obtain ⟨label, kind, description, properties, required, items⟩ := node
  unfold prune? at h
  split at h
  · exact .inl ⟨(Option.some.inj h).symm, .string rfl⟩
  · exact .inl ⟨(Option.some.inj h).symm, .number rfl⟩
  · exact .inl ⟨(Option.some.inj h).symm, .boolean rfl⟩
  · exact .inr (.inl ⟨_, rfl, rfl, (Option.some.inj h).symm⟩)
  · exact .inr (.inr ⟨_, rfl, rfl, (Option.some.inj h).symm⟩)
  · cases h

/-- Nothing is kept of null. -/
theorem prune?_null (node : Node ι) : node.prune? .null = none := by
  obtain ⟨label, kind, description, properties, required, items⟩ := node
  cases kind <;> rfl

theorem prune?_array {node : Node ι} (hk : node.kind = .array) (elements : List Json) :
    node.prune? (.array elements) = some (.array (pruneElements node.items elements)) := by
  cases node
  cases hk
  rfl

theorem prune?_object {node : Node ι} (hk : node.kind = .object)
    (members : List (String × Json)) : node.prune? (.object members) =
      some (.object (KeyedList.sorted (pruneMembers node.properties members))) := by
  cases node
  cases hk
  rfl

/-- What is kept of a value is part of it. -/
theorem part_of_prune? {node : Node ι} (hw : node.WellFormed) {value kept : Json}
    (h : node.prune? value = some kept) : kept.Part value := by
  induction node using Node.induction generalizing value kept with
  | step node ihp ihi =>
    rcases prune?_cases h with ⟨rfl, -⟩ | ⟨elements, -, rfl, rfl⟩ | ⟨members, -, rfl, rfl⟩
    · exact Json.Part.refl kept
    · refine .array ?_
      cases hi : node.items with
      | none => exact Json.PartElements.refl elements
      | some child =>
        have inner := hw.of_items hi
        exact Json.partElements_filterMap fun element _ kept hk => ihi child hi inner hk
    · rw [Json.part_object_iff]
      intro key kept hk
      obtain ⟨child, whole, hc, hf, hp⟩ := (find?_sorted_pruneMembers_eq_some_iff hw).mp hk
      have hm := KeyedList.mem_of_find?_eq_some hc
      exact ⟨whole, hf, ihp _ hm (hw.of_mem_properties hm) hp⟩

/-- What is kept of a value conforms. -/
theorem conforms_of_prune? {node : Node ι} (hw : node.WellFormed) {value kept : Json}
    (h : node.prune? value = some kept) : node.Conforms kept := by
  induction node using Node.induction generalizing value kept with
  | step node ihp ihi =>
    rcases prune?_cases h with ⟨rfl, hc⟩ | ⟨elements, hk, rfl, rfl⟩ | ⟨members, hk, rfl, rfl⟩
    · exact hc
    · refine conforms_array_iff.mpr ⟨hk, fun child hi kept hm => ?_⟩
      rw [hi, pruneElements] at hm
      obtain ⟨element, _, hp⟩ := List.mem_filterMap.mp hm
      exact ihi child hi (hw.of_items hi) hp
    · refine conforms_object_iff.mpr ⟨hk, fun key kept hf => ?_⟩
      obtain ⟨child, _, hc, _, hp⟩ := (find?_sorted_pruneMembers_eq_some_iff hw).mp hf
      have hm := KeyedList.mem_of_find?_eq_some hc
      exact ⟨child, hc, ihp _ hm (hw.of_mem_properties hm) hp⟩

/-- Of a value with a conforming part something is kept, and the part is part of it. -/
theorem exists_prune?_of_conforms {node : Node ι} (hw : node.WellFormed) {part value : Json}
    (hp : part.Part value) (hc : node.Conforms part) :
    ∃ kept, node.prune? value = some kept ∧ part.Part kept := by
  induction node using Node.induction generalizing part value with
  | step node ihp ihi =>
    cases hc with
    | string hk =>
      cases hp
      cases node
      cases hk
      exact ⟨_, rfl, .string _⟩
    | number hk =>
      cases hp
      cases node
      cases hk
      exact ⟨_, rfl, .number _⟩
    | boolean hk =>
      cases hp
      cases node
      cases hk
      exact ⟨_, rfl, .bool _⟩
    | array hk hc =>
      cases hp with
      | array hp =>
        refine ⟨_, prune?_array hk _, .array ?_⟩
        cases hi : node.items with
        | none => exact hp
        | some child =>
          have inner := hw.of_items hi
          exact Json.partElements_filterMap_of_forall
            (fun element _ part hp hc => ihi child hi inner hp hc) hp (hc child hi)
    | object hk hd hc =>
      have declared := (conforms_object_iff.mp (.object hk hd hc)).2
      cases hp with
      | object hn hp =>
        have present := Json.part_object_iff.mp (.object hn hp)
        refine ⟨_, prune?_object hk _, Json.part_object_iff.mpr fun key part hf => ?_⟩
        obtain ⟨child, hchild, conforms⟩ := declared key part hf
        obtain ⟨whole, hwhole, inside⟩ := present key part hf
        have hm := KeyedList.mem_of_find?_eq_some hchild
        obtain ⟨kept, hk, hpart⟩ := ihp _ hm (hw.of_mem_properties hm) inside conforms
        exact ⟨kept, (find?_sorted_pruneMembers_eq_some_iff hw).mpr
          ⟨child, whole, hchild, hwhole, hk⟩, hpart⟩

/-- What is kept of a value in normal form is in normal form. -/
theorem isSorted_of_prune? {node : Node ι} (hw : node.WellFormed) {value kept : Json}
    (hs : value.IsSorted) (h : node.prune? value = some kept) : kept.IsSorted := by
  induction node using Node.induction generalizing value kept with
  | step node ihp ihi =>
    rcases prune?_cases h with ⟨rfl, -⟩ | ⟨elements, -, rfl, rfl⟩ | ⟨members, -, rfl, rfl⟩
    · exact hs
    · have parts := Json.isSorted_array_iff.mp hs
      refine .array fun kept hm => ?_
      cases hi : node.items with
      | none =>
        rw [hi] at hm
        exact parts kept hm
      | some child =>
        rw [hi, pruneElements] at hm
        obtain ⟨element, he, hp⟩ := List.mem_filterMap.mp hm
        exact ihi child hi (hw.of_items hi) (parts element he) hp
    · obtain ⟨-, parts⟩ := Json.isSorted_object_iff.mp hs
      have rising := KeyedList.isRising_sorted (pruneMembers node.properties members)
      refine .object rising fun entry hm => ?_
      have hf := (KeyedList.find?_eq_some_iff (KeyedList.nodup_keys_of_isRising rising)).mpr hm
      obtain ⟨child, whole, hc, hv, hp⟩ := (find?_sorted_pruneMembers_eq_some_iff hw).mp hf
      have hchild := KeyedList.mem_of_find?_eq_some hc
      exact ihp _ hchild (hw.of_mem_properties hchild)
        (parts _ (KeyedList.mem_of_find?_eq_some hv)) hp

/-- A conforming value in normal form is kept as it is. -/
theorem prune?_of_conforms {node : Node ι} (hw : node.WellFormed) {value : Json}
    (hs : value.IsSorted) (hc : node.Conforms value) : node.prune? value = some value := by
  obtain ⟨kept, hk, hp⟩ := exists_prune?_of_conforms hw (Json.Part.refl value) hc
  have back := part_of_prune? hw hk
  rw [hk, Json.Part.antisymm kept (isSorted_of_prune? hw hs hk) hs back hp]

end Node

variable {ι : Type} {schema : Node ι}

/-- Pruning leaves null where nothing is kept, and what is kept is not null. -/
theorem prune_eq_null_iff (hw : schema.WellFormed) {value : Json} :
    prune (some schema) value = .null ↔ schema.prune? value = none := by
  rw [prune]
  cases h : schema.prune? value with
  | none => exact iff_of_true rfl rfl
  | some kept =>
    refine iff_of_false (fun he => ?_) (Option.some_ne_none kept)
    rw [Option.getD_some] at he
    subst he
    exact schema.not_conforms_null (Node.conforms_of_prune? hw h)

/-- Pruning gives null exactly if no part of the value conforms. Otherwise it gives the
greatest one of the parts that conform, in normal form like the value, and pruning that
one again changes nothing. -/
theorem prune_isGreatest (hw : schema.WellFormed) (value : Json.Normal) :
    (prune (some schema) value.value = .null ↔
      ¬ ∃ part ≤ value, schema.Conforms part.value) ∧
    (prune (some schema) value.value ≠ .null →
      ∃ kept : Json.Normal, kept.value = prune (some schema) value.value ∧
        IsGreatest {part : Json.Normal | part ≤ value ∧ schema.Conforms part.value} kept) ∧
    prune (some schema) (prune (some schema) value.value) =
      prune (some schema) value.value := by
  rw [prune_eq_null_iff hw, ne_eq, prune_eq_null_iff hw]
  cases h : schema.prune? value.value with
  | none =>
    have nothing : ¬ ∃ part ≤ value, schema.Conforms part.value := by
      rintro ⟨part, hp, hc⟩
      obtain ⟨kept, hk, -⟩ := Node.exists_prune?_of_conforms hw hp hc
      rw [h] at hk
      cases hk
    refine ⟨iff_of_true rfl nothing, fun hne => absurd rfl hne, ?_⟩
    have gone : prune (some schema) value.value = .null := (prune_eq_null_iff hw).mpr h
    rw [gone, (prune_eq_null_iff hw).mpr schema.prune?_null]
  | some kept =>
    have sorted := Node.isSorted_of_prune? hw value.isSorted h
    have conforms := Node.conforms_of_prune? hw h
    have part := Node.part_of_prune? hw h
    have result : prune (some schema) value.value = kept := by rw [prune, h, Option.getD_some]
    refine ⟨iff_of_false (Option.some_ne_none kept) fun none => ?_, fun _ => ?_, ?_⟩
    · exact none ⟨⟨kept, sorted⟩, part, conforms⟩
    · refine ⟨⟨kept, sorted⟩, result.symm, ⟨part, conforms⟩, ?_⟩
      rintro other ⟨hp, hc⟩
      obtain ⟨greatest, hg, hle⟩ := Node.exists_prune?_of_conforms hw hp hc
      obtain rfl : kept = greatest := Option.some.inj (h.symm.trans hg)
      exact hle
    · rw [result, prune, Node.prune?_of_conforms hw sorted conforms, Option.getD_some]

/-- A line of an order has a name. -/
def orderLine : Schema :=
  { label := (), kind := .object, properties := [("name", .bare .string)] }

/-- An order has lines, and tags about which nothing is declared. -/
def order : Schema :=
  { label := (), kind := .object,
    properties := [("lines", .arrayOf orderLine), ("tags", .bare .array)] }

/-- An order with more in it than is declared. -/
def longOrder : Json.Normal where
  value := Json.sorted (.object [
    ("tags", .array [.null, .bool true]),
    ("note", .string "urgent"),
    ("lines", .array [.object [("name", .string "bolt"), ("spare", .bool true)], .null])])
  isSorted := Json.isSorted_sorted _

theorem wellFormed_order : order.WellFormed := by
  have line : orderLine.WellFormed := by
    rw [Node.wellFormed_iff]
    simp [orderLine, KeyedList.keys, Node.wellFormed_bare]
  rw [Node.wellFormed_iff]
  simp [order, KeyedList.keys, Node.wellFormed_bare, Node.wellFormed_arrayOf line]

theorem prune_isGreatest_order :
    order.WellFormed ∧ ∃ kept : Json.Normal,
      kept.value = .object [
        ("lines", .array [.object [("name", .string "bolt")]]),
        ("tags", .array [.null, .bool true])] ∧
      IsGreatest {part : Json.Normal | part ≤ longOrder ∧ order.Conforms part.value} kept := by
  have result : prune (some order) longOrder.value = .object [
      ("lines", .array [.object [("name", .string "bolt")]]),
      ("tags", .array [.null, .bool true])] := by decide
  have kept : prune (some order) longOrder.value ≠ .null := by simp [result]
  obtain ⟨kept, hk, greatest⟩ := (prune_isGreatest wellFormed_order longOrder).2.1 kept
  exact ⟨wellFormed_order, kept, hk.trans result, greatest⟩

end SchemaGate
