import SchemaGate.Proofs.Schema.Projection
import SchemaGate.Proofs.Schema.Sharing

/-!
# Pruning under closed schemas

A check puts up with nulls that pruning drops: in properties that may be absent and
among the elements of an array. Where every object node requires declared names only,
nothing that is dropped was needed: of a value that is accepted and not null something
is kept, so a required member keeps a value, and what is kept of a member is accepted as
the member was. Labels and descriptions do not decide whether a schema is closed.
-/

namespace SchemaGate

variable {ι κ : Type}

namespace Node

theorem keys_properties_relabel (f : ι → κ) (node : Node ι) :
    KeyedList.keys (node.relabel f).properties = KeyedList.keys node.properties := by
  simp [KeyedList.keys, Function.comp_def]

/-- What labels do not decide of a node holds everywhere in a relabelled schema if it held
everywhere before. -/
theorem forall_within_relabel_iff {p : Node κ → Prop} {q : Node ι → Prop} (f : ι → κ)
    (h : ∀ node, p (node.relabel f) ↔ q node) (root : Node ι) :
    (∀ node, Within node (root.relabel f) → p node) ↔ ∀ node, Within node root → q node := by
  induction root using Node.induction with
  | step root ihp ihi =>
    rw [forall_within_iff, forall_within_iff, properties_relabel, items_relabel,
      List.forall_mem_map, h root]
    refine and_congr_right fun _ => and_congr (forall₂_congr ihp) ?_
    constructor
    · intro parts child hi
      exact (ihi child hi).mp (parts _ (by rw [hi]; rfl))
    · intro parts child hi
      obtain ⟨child, hc, rfl⟩ := Option.map_eq_some_iff.mp hi
      exact (ihi child hc).mpr (parts child hc)

theorem wellFormed_relabel (f : ι → κ) (node : Node ι) :
    (node.relabel f).WellFormed ↔ node.WellFormed :=
  forall_within_relabel_iff f (fun node => by rw [keys_properties_relabel]) node

theorem closed_relabel (f : ι → κ) (node : Node ι) :
    (node.relabel f).Closed ↔ node.Closed :=
  forall_within_relabel_iff f
    (fun node => by rw [keys_properties_relabel, required_relabel, kind_relabel]) node

/-- Numbering keeps a schema well-formed. -/
theorem wellFormed_numbered (node : Node ι) : node.numbered.WellFormed ↔ node.WellFormed := by
  rw [← wellFormed_relabel fun _ => (), ← wellFormed_relabel (fun _ => ()) node]
  exact iff_of_eq (congrArg WellFormed (unlabelled_numberFrom 0 node))

/-- Numbering keeps a schema closed. -/
theorem closed_numbered (node : Node ι) : node.numbered.Closed ↔ node.Closed := by
  rw [← closed_relabel fun _ => (), ← closed_relabel (fun _ => ()) node]
  exact iff_of_eq (congrArg Closed (unlabelled_numberFrom 0 node))

theorem wellFormed_describedAs {node : Node ι} (description : String) :
    (node.describedAs description).WellFormed ↔ node.WellFormed := by
  rw [wellFormed_iff, wellFormed_iff]
  rfl

theorem closed_describedAs {node : Node ι} (description : String) :
    (node.describedAs description).Closed ↔ node.Closed := by
  rw [closed_iff, closed_iff]
  rfl

/-- An accepted value that is not null has the kind of its node, so something is kept. -/
theorem exists_prune?_of_accepts {node : Node ι} {value : Json} (ha : node.Accepts value)
    (hn : value ≠ .null) : ∃ kept, node.prune? value = some kept := by
  cases ha with
  | null => exact absurd rfl hn
  | string hk =>
    cases node
    cases hk
    exact ⟨_, rfl⟩
  | number hk =>
    cases node
    cases hk
    exact ⟨_, rfl⟩
  | boolean hk =>
    cases node
    cases hk
    exact ⟨_, rfl⟩
  | array hk => exact ⟨_, prune?_array hk _⟩
  | object hk => exact ⟨_, prune?_object hk _⟩

/-- Under a closed object node that accepts the members, no required name is lost. -/
theorem isAbsent_pruneMembers {node : Node ι} (hw : node.WellFormed) (hd : node.Closed)
    {members : List (String × Json)} (ha : node.Accepts (.object members)) {name : String}
    (hr : name ∈ node.required) :
    isAbsent (KeyedList.sorted (pruneMembers node.properties members)) name = false := by
  obtain ⟨hk, present, parts⟩ := accepts_object_iff.mp ha
  obtain ⟨whole, hf, hn⟩ := isAbsent_eq_false_iff.mp (present name hr)
  obtain ⟨child, hc⟩ := KeyedList.mem_keys_iff.mp ((closed_iff.mp hd).1 hk name hr)
  have hm := KeyedList.mem_of_find?_eq_some hc
  have accepted := parts _ hm whole hf fun null => absurd null hn
  obtain ⟨kept, hp⟩ := exists_prune?_of_accepts accepted hn
  refine isAbsent_eq_false_iff.mpr ⟨kept, ?_, fun null => ?_⟩
  · exact (find?_sorted_pruneMembers_eq_some_iff hw).mpr ⟨child, whole, hc, hf, hp⟩
  · subst null
    exact child.not_conforms_null (conforms_of_prune? (hw.of_mem_properties hm) hp)

/-- A closed schema accepts what it keeps of an accepted value. -/
theorem accepts_of_prune? {node : Node ι} (hw : node.WellFormed) (hd : node.Closed)
    {value kept : Json} (ha : node.Accepts value) (h : node.prune? value = some kept) :
    node.Accepts kept := by
  induction node using Node.induction generalizing value kept with
  | step node ihp ihi =>
    obtain ⟨-, closed, closedItems⟩ := closed_iff.mp hd
    rcases prune?_cases h with ⟨rfl, -⟩ | ⟨elements, hk, rfl, rfl⟩ | ⟨members, hk, rfl, rfl⟩
    · exact ha
    · refine .array hk fun child hi kept hm => ?_
      rw [hi, pruneElements] at hm
      obtain ⟨element, he, hp⟩ := List.mem_filterMap.mp hm
      have accepted := (accepts_array_iff.mp ha).2 child hi element he
      exact ihi child hi (hw.of_items hi) (closedItems child hi) accepted hp
    · refine .object hk (fun name hr => isAbsent_pruneMembers hw hd ha hr) ?_
      rintro ⟨name, child⟩ hm kept hf -
      obtain ⟨declared, whole, hc, hv, hp⟩ := (find?_sorted_pruneMembers_eq_some_iff hw).mp hf
      have same := (KeyedList.find?_eq_some_iff hw.nodup_keys).mpr hm
      obtain rfl : child = declared := Option.some.inj (same.symm.trans hc)
      -- nothing is kept of a null, so the exception for nulls has no say here
      have accepted := (accepts_object_iff.mp ha).2.2 _ hm whole hv fun null => by
        rw [null, prune?_null] at hp
        cases hp
      exact ihp _ hm (hw.of_mem_properties hm) (closed _ hm) accepted hp

end Node

variable [DecidableEq ι]

/-- A closed schema still admits a value that it admitted after pruning it. -/
theorem admits_prune {schema : Node ι} (hc : schema.Coherent) (hw : schema.WellFormed)
    (hd : schema.Closed) {value : Json} (ha : admits (some schema) value = true) :
    admits (some schema) (prune (some schema) value) = true := by
  rw [admits_iff hc] at ha ⊢
  by_cases hn : value = .null
  · subst hn
    rw [(prune_eq_null_iff hw).mpr schema.prune?_null]
    exact ha
  · obtain ⟨kept, hk⟩ := Node.exists_prune?_of_accepts ha hn
    rw [prune, hk, Option.getD_some]
    exact Node.accepts_of_prune? hw hd ha hk

end SchemaGate
