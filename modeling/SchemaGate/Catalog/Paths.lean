import SchemaGate.Catalog.Basic

/-!
# Paths of references

Which types a type leads to, read off the records: a custom field refers to its target,
as one value or as a list, and a path follows references one after the other. Nothing
here asks whether the types on a path exist.
-/

namespace SchemaGate.Catalog

/-- A custom field of one type refers to the other. -/
def Refers (catalog : Catalog) (source target : TypeId) : Prop :=
  ∃ field ∈ catalog.fieldsOf source, field.kind = .custom ∧ field.reference = some target

/-- A number of references in a row leads from one type to another. -/
inductive Path (catalog : Catalog) : Nat → TypeId → TypeId → Prop where
  /-- No reference leads from a type to itself. -/
  | here (id : TypeId) : Path catalog 0 id id
  /-- One more reference in front. -/
  | step {length : Nat} {source middle target : TypeId} :
      catalog.Refers source middle → Path catalog length middle target →
      Path catalog (length + 1) source target

variable {catalog : Catalog}

theorem path_zero_iff {source target : TypeId} :
    catalog.Path 0 source target ↔ source = target :=
  ⟨fun h => by cases h; rfl, fun h => h ▸ .here source⟩

theorem path_succ_iff {length : Nat} {source target : TypeId} :
    catalog.Path (length + 1) source target ↔
      ∃ middle, catalog.Refers source middle ∧ catalog.Path length middle target :=
  ⟨fun h => by cases h with | step hr hp => exact ⟨_, hr, hp⟩, fun ⟨_, hr, hp⟩ => .step hr hp⟩

/-- Paths join end to end. -/
theorem Path.trans {m n : Nat} {source middle target : TypeId}
    (first : catalog.Path m source middle) (second : catalog.Path n middle target) :
    catalog.Path (m + n) source target := by
  induction first with
  | here => rwa [Nat.zero_add]
  | step hr _ ih =>
    rw [Nat.add_right_comm]
    exact .step hr (ih second)

/-- A path with a step has a last one. -/
theorem Path.last {length : Nat} {source target : TypeId}
    (h : catalog.Path (length + 1) source target) :
    ∃ middle, catalog.Path length source middle ∧ catalog.Refers middle target := by
  induction length generalizing source with
  | zero =>
    obtain ⟨middle, hr, hp⟩ := path_succ_iff.mp h
    obtain rfl := path_zero_iff.mp hp
    exact ⟨source, .here source, hr⟩
  | succ length ih =>
    obtain ⟨next, hr, hp⟩ := path_succ_iff.mp h
    obtain ⟨middle, hm, hl⟩ := ih hp
    exact ⟨middle, .step hr hm, hl⟩

/-- A path has a beginning of every smaller length. -/
theorem Path.take {length : Nat} {source target : TypeId}
    (h : catalog.Path length source target) {shorter : Nat} (hs : shorter ≤ length) :
    ∃ middle, catalog.Path shorter source middle := by
  induction h generalizing shorter with
  | here id =>
    obtain rfl := Nat.le_zero.mp hs
    exact ⟨id, .here id⟩
  | step hr _ ih =>
    cases shorter with
    | zero => exact ⟨_, .here _⟩
    | succ shorter =>
      obtain ⟨middle, hm⟩ := ih (Nat.le_of_succ_le_succ hs)
      exact ⟨middle, .step hr hm⟩

/-- A type reaches a cycle if some path from it meets one type twice. -/
def ReachesCycle (catalog : Catalog) (id : TypeId) : Prop :=
  ∃ before around meeting,
    catalog.Path before id meeting ∧ catalog.Path (around + 1) meeting meeting

/-- A type that reaches a cycle has paths of every length. -/
theorem exists_path_of_reachesCycle {id : TypeId} (h : catalog.ReachesCycle id)
    (length : Nat) : ∃ target, catalog.Path length id target := by
  obtain ⟨before, around, meeting, start, round⟩ := h
  have rounds : ∀ k, catalog.Path (k * (around + 1)) meeting meeting := by
    intro k
    induction k with
    | zero => rw [Nat.zero_mul]; exact .here _
    | succ k ih => rw [Nat.succ_mul]; exact ih.trans round
  refine (start.trans (rounds length)).take ?_
  exact Nat.le_trans (Nat.le_mul_of_pos_right length (Nat.succ_pos around))
    (Nat.le_add_left _ before)

end SchemaGate.Catalog
