import Mathlib.Data.List.Perm.Subperm
import SchemaGate.Proofs.Schema.Projection
import SchemaGate.Proofs.Schema.Sharing
import SchemaGate.Schema.Comparison
import SchemaGate.Schema.Equality

/-!
# Schemas that say the same

A schema that relaxes another one accepts whatever the other accepts. Whether null is
accepted hangs on what is required, and a relaxed schema requires less, so the two
recursions run against each other. Schemas that agree relax each other: they accept the
same values, and pruning keeps the same of every value, whatever the order of their
properties and however their nodes are shared. Equal schemas agree.
-/

namespace SchemaGate

variable {ι κ : Type}

/-- Nodes with parts are those of objects and of arrays. -/
theorem NodeKind.isScalar_eq_false_iff {kind : NodeKind} :
    kind.isScalar = false ↔ kind = .object ∨ kind = .array := by
  cases kind <;> simp [isScalar]

namespace Json

theorem kind_eq_object_iff {value : Json} :
    value.kind = .object ↔ ∃ members, value = .object members := by
  cases value <;> simp [kind]

theorem kind_eq_array_iff {value : Json} :
    value.kind = .array ↔ ∃ elements, value = .array elements := by
  cases value <;> simp [kind]

end Json

namespace Node

/-- A schema that relaxes another one requires nothing unless the other does. -/
theorem Relaxes.requires {node : Node ι} {other : Node κ} (h : Relaxes node other)
    (hw : node.WellFormed) (hr : node.Requires) : other.Requires := by
  induction h with
  | @intro node other hk hq hn _ _ _ ihp _ =>
    cases hr with
    | own ho hne =>
      refine .own (hk ▸ ho) fun none => hne ?_
      refine NameSet.eq_empty_iff_forall_not_mem.mpr fun name hm => ?_
      exact NameSet.not_mem_empty (none ▸ hq ho name hm)
    | @property _ child name ho hm hc =>
      have found := (KeyedList.find?_eq_some_iff hw.nodup_keys).mpr hm
      cases hs : KeyedList.find? name other.properties with
      | none =>
        rw [hn ho name hs] at found
        cases found
      | some strict =>
        exact .property (hk ▸ ho) (KeyedList.mem_of_find?_eq_some hs)
          (ihp ho name child strict found hs (hw.of_mem_properties hm) hc)

/-- A schema accepts what a schema accepts that it relaxes. -/
theorem Relaxes.accepts {node : Node ι} {other : Node κ} (h : Relaxes node other)
    (hw : node.WellFormed) {value : Json} (ha : other.Accepts value) : node.Accepts value := by
  induction h generalizing value with
  | @intro node other hk hq hn hp hi he ihp ihi =>
    have whole : Relaxes node other := .intro hk hq hn hp hi he
    cases value with
    | null =>
      rw [accepts_null_iff] at ha ⊢
      exact ⟨hk ▸ ha.1, fun hr => ha.2 (whole.requires hw hr)⟩
    | bool flag =>
      rw [accepts_bool_iff] at ha ⊢
      exact hk.trans ha
    | number number =>
      rw [accepts_number_iff] at ha ⊢
      exact hk.trans ha
    | string text =>
      rw [accepts_string_iff] at ha ⊢
      exact hk.trans ha
    | array elements =>
      rw [accepts_array_iff] at ha ⊢
      have own := hk.trans ha.1
      refine ⟨own, fun child hc element hm => ?_⟩
      cases hs : other.items with
      | none =>
        rw [hi own hs] at hc
        cases hc
      | some strict =>
        exact ihi own child strict hc hs (hw.of_items hc) (ha.2 strict hs element hm)
    | object members =>
      rw [accepts_object_iff] at ha ⊢
      obtain ⟨kind, present, parts⟩ := ha
      have own := hk.trans kind
      refine ⟨own, fun name hm => present name (hq own name hm), ?_⟩
      rintro ⟨name, child⟩ hm field hf counts
      have found := (KeyedList.find?_eq_some_iff hw.nodup_keys).mpr hm
      cases hs : KeyedList.find? name other.properties with
      | none =>
        rw [hn own name hs] at found
        cases found
      | some strict =>
        have same : child.kind = strict.kind := by
          cases hp own name child strict found hs with
          | intro same => exact same
        refine ihp own name child strict found hs (hw.of_mem_properties hm) ?_
        exact parts _ (KeyedList.mem_of_find?_eq_some hs) field hf fun null => same ▸ counts null

/-- Agreeing schemas accept the same values. -/
theorem Agrees.accepts_iff {node : Node ι} {other : Node κ} (h : Agrees node other)
    (hw : node.WellFormed) (hw' : other.WellFormed) (value : Json) :
    node.Accepts value ↔ other.Accepts value :=
  ⟨h.symm.relaxes.accepts hw', h.relaxes.accepts hw⟩

/-- A conforming value has the kind of its node. -/
theorem Conforms.kind_eq {node : Node ι} {value : Json} (h : node.Conforms value) :
    value.kind = node.kind.values := by
  cases h with
  | string hk => rw [hk]; rfl
  | number hk => rw [hk]; rfl
  | boolean hk => rw [hk]; rfl
  | array hk => rw [hk]; rfl
  | object hk => rw [hk]; rfl

/-- Something is kept only of values of the kind of the node. -/
theorem kind_eq_of_prune? {node : Node ι} {value kept : Json} (h : node.prune? value = some kept) :
    value.kind = node.kind.values := by
  rcases prune?_cases h with ⟨-, conforms⟩ | ⟨elements, hk, rfl, -⟩ | ⟨members, hk, rfl, -⟩
  · exact conforms.kind_eq
  · rw [hk]; rfl
  · rw [hk]; rfl

/-- Nothing is kept of a value of another kind. -/
theorem prune?_of_kind_ne {node : Node ι} {value : Json} (h : value.kind ≠ node.kind.values) :
    node.prune? value = none := by
  rw [Option.eq_none_iff_forall_ne_some]
  exact fun kept hp => h (kind_eq_of_prune? hp)

/-- Scalars are kept as they are. -/
theorem prune?_of_isScalar {node : Node ι} (hs : node.kind.isScalar = true) {value : Json}
    (h : value.kind = node.kind.values) : node.prune? value = some value := by
  obtain ⟨label, kind, description, properties, required, items⟩ := node
  cases kind with
  | object => cases hs
  | array => cases hs
  | string => cases value <;> cases h; rfl
  | number => cases value <;> cases h; rfl
  | boolean => cases value <;> cases h; rfl

/-- Items that keep the same of every value keep the same elements. -/
theorem pruneElements_congr {items : Option (Node ι)} {others : Option (Node κ)}
    (absent : items = none ↔ others = none)
    (same : ∀ child twin, items = some child → others = some twin →
      ∀ value, child.prune? value = twin.prune? value) (elements : List Json) :
    pruneElements items elements = pruneElements others elements := by
  cases items with
  | none => rw [absent.mp rfl, pruneElements, pruneElements]
  | some child =>
    cases others with
    | none => cases absent.mpr rfl
    | some twin =>
      rw [pruneElements, pruneElements, funext (same child twin rfl rfl)]

/-- Properties that keep the same of every value keep the same members, in whatever order
they are declared. -/
theorem sorted_pruneMembers_congr {node : Node ι} {other : Node κ} (hw : node.WellFormed)
    (hw' : other.WellFormed)
    (absent : ∀ name, KeyedList.find? name node.properties = none ↔
      KeyedList.find? name other.properties = none)
    (same : ∀ name child twin, KeyedList.find? name node.properties = some child →
      KeyedList.find? name other.properties = some twin →
      ∀ value, child.prune? value = twin.prune? value) (members : List (String × Json)) :
    KeyedList.sorted (pruneMembers node.properties members) =
      KeyedList.sorted (pruneMembers other.properties members) := by
  refine KeyedList.ext_of_isRising (KeyedList.isRising_sorted _) (KeyedList.isRising_sorted _) ?_
  intro name
  rw [find?_sorted_pruneMembers hw, find?_sorted_pruneMembers hw']
  have none := absent name
  have both := same name
  cases hc : KeyedList.find? name node.properties with
  | none => rw [none.mp hc, Option.bind_none, Option.bind_none]
  | some child =>
    cases ht : KeyedList.find? name other.properties with
    | none =>
      rw [none.mpr ht] at hc
      cases hc
    | some twin => rw [Option.bind_some, Option.bind_some, funext (both child twin hc ht)]

/-- Agreeing schemas keep the same of a value. -/
theorem Agrees.prune?_eq {node : Node ι} {other : Node κ} (h : Agrees node other)
    (hw : node.WellFormed) (hw' : other.WellFormed) (value : Json) :
    node.prune? value = other.prune? value := by
  induction h generalizing value with
  | @intro node other hk _ hn _ hi _ ihp ihi =>
    by_cases hv : value.kind = node.kind.values
    · cases hs : node.kind.isScalar with
      | true => rw [prune?_of_isScalar hs hv, prune?_of_isScalar (hk ▸ hs) (hk ▸ hv)]
      | false =>
        rcases NodeKind.isScalar_eq_false_iff.mp hs with own | own
        · obtain ⟨members, rfl⟩ := Json.kind_eq_object_iff.mp (hv.trans (own ▸ rfl))
          rw [prune?_object own, prune?_object (hk ▸ own),
            sorted_pruneMembers_congr hw hw' (hn own)]
          intro name child twin hc ht
          exact ihp own name child twin hc ht
            (hw.of_mem_properties (KeyedList.mem_of_find?_eq_some hc))
            (hw'.of_mem_properties (KeyedList.mem_of_find?_eq_some ht))
        · obtain ⟨elements, rfl⟩ := Json.kind_eq_array_iff.mp (hv.trans (own ▸ rfl))
          rw [prune?_array own, prune?_array (hk ▸ own), pruneElements_congr (hi own)]
          intro child twin hc ht
          exact ihi own child twin hc ht (hw.of_items hc) (hw'.of_items ht)
    · rw [prune?_of_kind_ne hv, prune?_of_kind_ne (hk ▸ hv)]

/-- Sets of names that pass for the same hold the same names. -/
theorem mem_iff_of_sameNames {set other : NameSet} (h : sameNames set other = true)
    (name : String) : name ∈ set ↔ name ∈ other := by
  rw [sameNames, Bool.and_eq_true, beq_iff_eq, List.all_eq_true] at h
  have inside : set.names ⊆ other.names := fun name hm => List.contains_iff_mem.mp (h.2 name hm)
  have inner := List.subperm_of_subset set.distinct inside
  exact (inner.perm_of_length_le (Nat.le_of_eq h.1.symm)).mem_iff

/-- Equal schemas declare the same names. -/
theorem find?_eq_none_iff_of_equal {node : Node ι} {other : Node κ} (hw : node.WellFormed)
    (h : node.equal other = true) (name : String) :
    KeyedList.find? name node.properties = none ↔
      KeyedList.find? name other.properties = none := by
  obtain ⟨-, -, long, found, -⟩ := equal_iff.mp h
  have inside : KeyedList.keys node.properties ⊆ KeyedList.keys other.properties := by
    intro name hm
    obtain ⟨property, hp, rfl⟩ := List.mem_map.mp hm
    obtain ⟨twin, hf, -⟩ := found property hp
    exact KeyedList.mem_keys_iff.mpr ⟨twin, hf⟩
  have short : (KeyedList.keys other.properties).length ≤
      (KeyedList.keys node.properties).length := by
    rw [KeyedList.keys, KeyedList.keys, List.length_map, List.length_map]
    exact Nat.le_of_eq long.symm
  have same := (List.subperm_of_subset hw.nodup_keys inside).perm_of_length_le short
  rw [KeyedList.find?_eq_none_iff, KeyedList.find?_eq_none_iff, same.mem_iff]

/-- Equal schemas agree. -/
theorem agrees_of_equal {node : Node ι} {other : Node κ} (hw : node.WellFormed)
    (h : node.equal other = true) : node.Agrees other := by
  induction node using Node.induction generalizing other with
  | step node ihp ihi =>
    obtain ⟨kind, -, -, found, required, absent, items⟩ := equal_iff.mp h
    refine .intro kind (fun _ => mem_iff_of_sameNames required)
      (fun _ => find?_eq_none_iff_of_equal hw h) ?_ (fun _ => absent) ?_
    · intro _ name child twin hc ht
      have hm := KeyedList.mem_of_find?_eq_some hc
      obtain ⟨partner, hf, same⟩ := found _ hm
      obtain rfl : twin = partner := Option.some.inj (ht.symm.trans hf)
      exact ihp _ hm (hw.of_mem_properties hm) same
    · intro _ child twin hc ht
      exact ihi child hc (hw.of_items hc) (items child twin hc ht)

end Node

variable [DecidableEq ι] [DecidableEq κ]

/-- Schemas that agree at every depth on kinds, on required names, on properties by name and
on items admit the same values and keep the same of every value when it is pruned. Orders,
descriptions, members that a kind ignores and the sharing of nodes may differ. Equal schemas
agree. -/
theorem agreeing_schemas_answer_alike {schema : Node ι} {other : Node κ}
    (hc : schema.Coherent) (hc' : other.Coherent) (hw : schema.WellFormed)
    (hw' : other.WellFormed) :
    (schema.equal other = true → schema.Agrees other) ∧
    (schema.Agrees other → ∀ value : Json,
      admits (some schema) value = admits (some other) value ∧
      prune (some schema) value = prune (some other) value) := by
  refine ⟨Node.agrees_of_equal hw, fun h value => ⟨?_, ?_⟩⟩
  · rw [Bool.eq_iff_iff, admits_iff hc, admits_iff hc']
    exact h.accepts_iff hw hw' value
  · rw [prune, prune, h.prune?_eq hw hw' value]

/-- An address with a description, told apart from others by its label. -/
def describedAddress (label : Nat) : NumberedSchema :=
  { label, kind := .object, description := "where to", required := .ofList ["street"] }

/-- A customer with a node for each address, declared in the other order, and with items,
which mean nothing for an object. -/
def describedCustomer : NumberedSchema :=
  { label := 0, kind := .object,
    properties := [("shipping", describedAddress 1), ("billing", describedAddress 2)],
    items := some { label := 3, kind := .string } }

theorem coherent_describedCustomer : describedCustomer.Coherent := by
  refine Node.coherent_of_instances [describedCustomer, describedAddress 1, describedAddress 2,
    { label := 3, kind := .string }] (by decide) (by simp) ?_
    (by simp [describedCustomer, describedAddress])
  have both : ∀ property ∈ describedCustomer.properties,
      property.2 = describedAddress 1 ∨ property.2 = describedAddress 2 := by
    simp [describedCustomer]
  have none : ∀ label, (describedAddress label).properties = [] := fun _ => rfl
  simp only [List.forall_mem_cons, none]
  refine ⟨fun property hp => ?_, by simp, by simp, by simp, by simp⟩
  rcases both property hp with h | h <;> simp [h]

theorem wellFormed_customer : customer.WellFormed := by
  have inner : address.WellFormed := by
    rw [Node.wellFormed_iff]
    simp [address, KeyedList.keys]
  rw [Node.wellFormed_iff]
  simp [customer, KeyedList.keys, inner]

theorem wellFormed_describedCustomer : describedCustomer.WellFormed := by
  have inner : ∀ label, (describedAddress label).WellFormed := fun label => by
    rw [Node.wellFormed_iff]
    simp [describedAddress, KeyedList.keys]
  have items : Node.WellFormed (ι := Nat) { label := 3, kind := .string } := by
    rw [Node.wellFormed_iff]
    simp [KeyedList.keys]
  rw [Node.wellFormed_iff]
  simp [describedCustomer, KeyedList.keys, inner, items]

theorem agrees_describedCustomer : customer.Agrees describedCustomer := by
  have inner : ∀ label, address.Agrees (describedAddress label) := fun label =>
    .intro rfl (fun _ _ => Iff.rfl) (fun _ _ => Iff.rfl) nofun nofun nofun
  refine .intro rfl (fun _ _ => Iff.rfl) (fun _ name => ?_) (fun _ name child twin hc ht => ?_)
    nofun nofun
  · rw [KeyedList.find?_eq_none_iff, KeyedList.find?_eq_none_iff]
    simp [customer, describedCustomer, KeyedList.keys, and_comm]
  · have left : child = address := by
      have hm := KeyedList.mem_of_find?_eq_some hc
      simp only [customer, List.mem_cons, Prod.mk.injEq, List.not_mem_nil, or_false] at hm
      exact hm.elim And.right And.right
    have right : ∃ label, twin = describedAddress label := by
      have hm := KeyedList.mem_of_find?_eq_some ht
      simp only [describedCustomer, List.mem_cons, Prod.mk.injEq, List.not_mem_nil,
        or_false] at hm
      exact hm.elim (fun h => ⟨1, h.2⟩) fun h => ⟨2, h.2⟩
    obtain ⟨label, rfl⟩ := right
    exact left ▸ inner label

/-- A customer without a street anywhere. -/
def streetless : Json := .object [("billing", .null), ("shipping", .object [])]

theorem agreeing_schemas_answer_alike_customer :
    customer.Agrees describedCustomer ∧
    (Checker.run {} customer streetless).violation ≠
      (Checker.run {} describedCustomer streetless).violation ∧
    admits (some customer) streetless = admits (some describedCustomer) streetless ∧
    prune (some customer) streetless = prune (some describedCustomer) streetless ∧
    prune (some describedCustomer) streetless = .object [("shipping", .object [])] := by
  have alike := (agreeing_schemas_answer_alike coherent_customer coherent_describedCustomer
    wellFormed_customer wellFormed_describedCustomer).2 agrees_describedCustomer streetless
  exact ⟨agrees_describedCustomer, by decide, alike.1, alike.2, by decide⟩

end SchemaGate
