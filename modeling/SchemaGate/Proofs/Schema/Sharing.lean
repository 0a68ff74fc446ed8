import Mathlib.Data.List.Nodup
import SchemaGate.Schema.Acceptance

/-!
# Sharing does not matter

A checker remembers answers per instance, yet what it answers is what the rules say of
the bare tree: it admits the accepted values, and acceptance ignores labels. So two ways
of sharing the nodes of one tree admit the same values. Numbering gives every position
an instance of its own, which makes acceptance decidable for every schema.
-/

namespace SchemaGate

variable {ι κ : Type}

namespace Node

/-- Labels do not decide whether a node requires a name. -/
theorem requires_relabel (f : ι → κ) (node : Node ι) :
    (node.relabel f).Requires ↔ node.Requires := by
  induction node using Node.induction with
  | step node ihp _ =>
    rw [requires_iff, requires_iff, kind_relabel, required_relabel, properties_relabel]
    refine and_congr_right fun _ => or_congr_right ?_
    constructor
    · rintro ⟨_, hm, hr⟩
      obtain ⟨property, hp, rfl⟩ := List.mem_map.mp hm
      exact ⟨property, hp, (ihp property hp).mp hr⟩
    · rintro ⟨property, hp, hr⟩
      exact ⟨_, List.mem_map_of_mem hp, (ihp property hp).mpr hr⟩

/-- Labels do not decide what is accepted. -/
theorem accepts_relabel (f : ι → κ) (node : Node ι) (value : Json) :
    (node.relabel f).Accepts value ↔ node.Accepts value := by
  induction node using Node.induction generalizing value with
  | step node ihp ihi =>
    cases value with
    | null => rw [accepts_null_iff, accepts_null_iff, kind_relabel, requires_relabel]
    | bool value => rw [accepts_bool_iff, accepts_bool_iff, kind_relabel]
    | number value => rw [accepts_number_iff, accepts_number_iff, kind_relabel]
    | string text => rw [accepts_string_iff, accepts_string_iff, kind_relabel]
    | array elements =>
      rw [accepts_array_iff, accepts_array_iff, kind_relabel, items_relabel]
      refine and_congr_right fun _ => ?_
      constructor
      · intro h child hi element he
        exact (ihi child hi element).mp (h _ (by rw [hi]; rfl) element he)
      · intro h child hi element he
        obtain ⟨child, hc, rfl⟩ := Option.map_eq_some_iff.mp hi
        exact (ihi child hc element).mpr (h child hc element he)
    | object members =>
      rw [accepts_object_iff, accepts_object_iff, kind_relabel, required_relabel,
        properties_relabel]
      refine and_congr_right fun _ => and_congr_right fun _ => ?_
      rw [List.forall_mem_map]
      refine forall₂_congr fun property hp => forall₂_congr fun field _ => ?_
      rw [kind_relabel, ihp property hp field]

/-- A tree accepts what it accepts without labels. -/
theorem accepts_unlabelled (node : Node ι) (value : Json) :
    node.unlabelled.Accepts value ↔ node.Accepts value :=
  accepts_relabel _ node value

/-- A schema put together from instances with labels of their own is coherent, however they
are shared. -/
theorem coherent_of_instances {root : Node ι} (instances : List (Node ι))
    (hn : (instances.map Node.label).Nodup) (hr : root ∈ instances)
    (hp : ∀ node ∈ instances, ∀ property ∈ node.properties, property.2 ∈ instances)
    (hi : ∀ node ∈ instances, ∀ child, node.items = some child → child ∈ instances) :
    root.Coherent := by
  have covered : ∀ {node root}, Within node root → root ∈ instances → node ∈ instances := by
    intro node root hw
    induction hw with
    | self => exact fun hm => hm
    | property hm _ ih => exact fun hr => ih (hp _ hr _ hm)
    | items hc _ ih => exact fun hr => ih (hi _ hr _ hc)
  intro a b ha hb
  exact List.inj_on_of_nodup_map hn (covered ha hr) (covered hb hr)

/-- The nodes that satisfy a predicate bear labels of a range, no label twice. -/
structure Numbered (nodes : Node Nat → Prop) (first next : Nat) : Prop where
  /-- The range does not run backwards. -/
  le : first ≤ next
  /-- Labels come from the range. -/
  range : ∀ node, nodes node → first ≤ node.label ∧ node.label < next
  /-- Equal labels mean equal nodes. -/
  distinct : ∀ a b, nodes a → nodes b → a.label = b.label → a = b

namespace Numbered

theorem none (first : Nat) : Numbered (fun _ => False) first first where
  le := Nat.le_refl first
  range := fun _ h => h.elim
  distinct := fun _ _ h => h.elim

/-- One node bears its own label. -/
theorem one (node : Node Nat) : Numbered (· = node) node.label (node.label + 1) where
  le := Nat.le_succ _
  range := by
    rintro _ rfl
    exact ⟨Nat.le_refl _, Nat.lt_succ_self _⟩
  distinct := by
    rintro _ _ rfl rfl _
    rfl

/-- Nodes of adjacent ranges are numbered together. -/
theorem or {p q : Node Nat → Prop} {first middle next : Nat} (hp : Numbered p first middle)
    (hq : Numbered q middle next) : Numbered (fun node => p node ∨ q node) first next where
  le := Nat.le_trans hp.le hq.le
  range := by
    have lower := hp.le
    have upper := hq.le
    rintro node (h | h)
    · have inside := hp.range node h
      omega
    · have inside := hq.range node h
      omega
  distinct := by
    rintro a b (ha | ha) (hb | hb) he
    · exact hp.distinct a b ha hb he
    · have left := hp.range a ha
      have right := hq.range b hb
      omega
    · have left := hp.range b hb
      have right := hq.range a ha
      omega
    · exact hq.distinct a b ha hb he

theorem congr {p q : Node Nat → Prop} {first next : Nat} (hp : Numbered p first next)
    (h : ∀ node, q node ↔ p node) : Numbered q first next := by
  rwa [funext fun node => propext (h node)]

end Numbered

mutual

/-- Numbering a tree numbers its nodes. -/
theorem numbered_numberFrom : (next : Nat) → (node : Node ι) →
    Numbered (·.Within (numberFrom next node).1) next (numberFrom next node).2
  | next, ⟨label, kind, description, properties, required, items⟩ => by
    have below := numbered_numberProperties (next + 1) properties
    have beside := numbered_numberItems (numberProperties (next + 1) properties).2 items
    have self : Numbered (· = (numberFrom next
        ⟨label, kind, description, properties, required, items⟩).1) next (next + 1) :=
      Numbered.one _
    exact (self.or (below.or beside)).congr fun node => within_iff

/-- Numbering properties numbers the nodes below them. -/
theorem numbered_numberProperties : (next : Nat) → (properties : List (String × Node ι)) →
    Numbered (fun node => ∃ property ∈ (numberProperties next properties).1,
      node.Within property.2) next (numberProperties next properties).2
  | next, [] => (Numbered.none next).congr fun node => by simp [numberProperties]
  | next, (name, child) :: rest => by
    have first := numbered_numberFrom next child
    have later := numbered_numberProperties (numberFrom next child).2 rest
    refine (first.or later).congr fun node => ?_
    simp [numberProperties]

/-- Numbering items numbers the nodes below them. -/
theorem numbered_numberItems : (next : Nat) → (items : Option (Node ι)) →
    Numbered (fun node => ∃ child, (numberItems next items).1 = some child ∧
      node.Within child) next (numberItems next items).2
  | next, none => (Numbered.none next).congr fun node => by simp [numberItems]
  | next, some child => by
    refine (numbered_numberFrom next child).congr fun node => ?_
    rw [numberItems]
    simp

end

/-- In a numbered tree equal labels mean equal nodes. -/
theorem coherent_numbered (node : Node ι) : node.numbered.Coherent :=
  (numbered_numberFrom 0 node).distinct

mutual

/-- Numbering changes labels alone. -/
theorem unlabelled_numberFrom : (next : Nat) → (node : Node ι) →
    (numberFrom next node).1.unlabelled = node.unlabelled
  | next, ⟨label, kind, description, properties, required, items⟩ => by
    have below := unlabelled_numberProperties (next + 1) properties
    have beside := unlabelled_numberItems (numberProperties (next + 1) properties).2 items
    rw [numberFrom, unlabelled, unlabelled, relabel, relabel, below, beside]

theorem unlabelled_numberProperties : (next : Nat) → (properties : List (String × Node ι)) →
    relabelProperties (fun _ => ()) (numberProperties next properties).1 =
      relabelProperties (fun _ => ()) properties
  | _, [] => rfl
  | next, (name, child) :: rest => by
    have first := unlabelled_numberFrom next child
    have later := unlabelled_numberProperties (numberFrom next child).2 rest
    rw [unlabelled, unlabelled] at first
    rw [numberProperties, relabelProperties, relabelProperties, first, later]

theorem unlabelled_numberItems : (next : Nat) → (items : Option (Node ι)) →
    relabelItems (fun _ => ()) (numberItems next items).1 = relabelItems (fun _ => ()) items
  | _, none => rfl
  | next, some child => by
    have inner := unlabelled_numberFrom next child
    rw [unlabelled, unlabelled] at inner
    rw [numberItems, relabelItems, relabelItems, inner]

end

/-- A numbered tree accepts what the tree accepts. -/
theorem accepts_numbered (node : Node ι) (value : Json) :
    node.numbered.Accepts value ↔ node.Accepts value := by
  rw [← accepts_unlabelled, numbered, unlabelled_numberFrom, accepts_unlabelled]

end Node

variable [DecidableEq ι] [DecidableEq κ]

/-- A run passes exactly on accepted values, whatever the checker did before. -/
theorem Checker.passed_run_iff {schema : Node ι} (hc : schema.Coherent) (checker : Checker ι)
    (value : Json) : (checker.run schema value).passed = true ↔ schema.Accepts value := by
  rw [passed, run, Option.isNone_iff_eq_none]
  exact (Node.visit_eq_none_iff hc schema (.self schema) value {} (Memory.Sound.empty schema)).1

/-- A schema whose labels tell its instances apart admits exactly what it accepts. -/
theorem admits_iff {schema : Node ι} (hc : schema.Coherent) (value : Json) :
    admits (some schema) value = true ↔ schema.Accepts value :=
  Checker.passed_run_iff hc {} value

instance (schema : Node ι) (value : Json) : Decidable (schema.Accepts value) :=
  decidable_of_iff (admits (some schema.numbered) value = true)
    ((admits_iff schema.coherent_numbered value).trans (schema.accepts_numbered value))

/-- Checking a value, by a checker with any past or by a fresh one, answers by the rules of
acceptance, which know of no memory and no instances. Hence every way of sharing the nodes
of one tree admits the same values. -/
theorem check_iff_accepts {schema : Node ι} (hc : schema.Coherent) (checker : Checker ι)
    (value : Json) :
    ((checker.run schema value).passed = true ↔ schema.Accepts value) ∧
    (admits (some schema) value = true ↔ schema.Accepts value) ∧
    ∀ twin : Node κ, twin.Coherent → twin.unlabelled = schema.unlabelled →
      admits (some twin) value = admits (some schema) value := by
  refine ⟨Checker.passed_run_iff hc checker value, admits_iff hc value, fun twin ht he => ?_⟩
  rw [Bool.eq_iff_iff, admits_iff ht, admits_iff hc, ← twin.accepts_unlabelled, he,
    schema.accepts_unlabelled]

/-- An address must name its street. -/
def address : NumberedSchema := { label := 1, kind := .object, required := .ofList ["street"] }

/-- A customer has two addresses, which share one node. -/
def customer : NumberedSchema :=
  { label := 0, kind := .object, properties := [("billing", address), ("shipping", address)] }

theorem coherent_customer : customer.Coherent := by
  refine Node.coherent_of_instances [customer, address] (by decide) (by simp) ?_ ?_
  · have both : ∀ property ∈ customer.properties, property.2 = address := by simp [customer]
    have none : address.properties = [] := rfl
    simp only [List.forall_mem_cons, none]
    exact ⟨fun property hp => by simp [both property hp], by simp, by simp⟩
  · simp [customer, address]

theorem check_iff_accepts_customer :
    customer.Coherent ∧
    ((Checker.run ⟨⟨[(1, false)], 0, 1⟩, none⟩ customer (.object [("billing", .null)])).passed
        = true ↔ customer.Accepts (.object [("billing", .null)])) ∧
    ¬ customer.Accepts (.object [("billing", .null)]) := by
  have rules := @check_iff_accepts Nat Nat _ _ customer coherent_customer
    ⟨⟨[(1, false)], 0, 1⟩, none⟩ (.object [("billing", .null)])
  exact ⟨coherent_customer, rules.1, by decide⟩

end SchemaGate
