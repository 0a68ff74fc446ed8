/-!
# Sets of names

A set of names remembers the order in which the names first came in.
-/

namespace SchemaGate

/-- Names without repetition, in the order of their first arrival. -/
@[ext]
structure NameSet where
  /-- The names. -/
  names : List String
  /-- No name came in twice. -/
  distinct : names.Nodup

namespace NameSet

instance : Coe NameSet (List String) := ⟨names⟩

instance : Membership String NameSet := ⟨fun set name => name ∈ set.names⟩

@[simp] theorem mem_names {set : NameSet} {name : String} : name ∈ set.names ↔ name ∈ set :=
  Iff.rfl

/-- The set without names. -/
def empty : NameSet := ⟨[], List.nodup_nil⟩

@[simp] theorem names_empty : empty.names = [] := rfl

@[simp] theorem not_mem_empty {name : String} : name ∉ empty := List.not_mem_nil

/-- Whether no name came in. -/
def isEmpty (set : NameSet) : Bool := set.names.isEmpty

@[simp] theorem isEmpty_iff {set : NameSet} : set.isEmpty = true ↔ set = empty := by
  rw [isEmpty, List.isEmpty_iff, NameSet.ext_iff, empty]

@[simp] theorem isEmpty_eq_false_iff {set : NameSet} : set.isEmpty = false ↔ set ≠ empty := by
  rw [← Bool.not_eq_true, isEmpty_iff]

theorem eq_empty_iff_forall_not_mem {set : NameSet} : set = empty ↔ ∀ name, name ∉ set := by
  rw [NameSet.ext_iff, empty, List.eq_nil_iff_forall_not_mem]
  rfl

theorem ne_empty_iff_exists_mem {set : NameSet} : set ≠ empty ↔ ∃ name, name ∈ set := by
  rw [Ne, eq_empty_iff_forall_not_mem, Classical.not_forall_not]

/-- Add a name at the end unless it is there. -/
def add (set : NameSet) (name : String) : NameSet :=
  if fresh : name ∈ set.names then set
  else ⟨set.names ++ [name], (List.perm_append_singleton name set.names).nodup_iff.mpr
    (List.nodup_cons.mpr ⟨fresh, set.distinct⟩)⟩

/-- The names of a list in the order in which they first occur. -/
def ofList (names : List String) : NameSet := names.foldl add empty

/-- The set without a name. -/
def erase (set : NameSet) (name : String) : NameSet :=
  ⟨set.names.erase name, set.distinct.erase name⟩

theorem mem_add {set : NameSet} {name other : String} :
    other ∈ set.add name ↔ other ∈ set ∨ other = name := by
  unfold add
  split
  · next h => exact ⟨Or.inl, fun o => o.elim id fun e => e ▸ h⟩
  · simp [← mem_names]

theorem mem_of_mem_erase {set : NameSet} {name other : String} (h : other ∈ set.erase name) :
    other ∈ set :=
  List.mem_of_mem_erase h

theorem names_add (set : NameSet) (name : String) :
    (set.add name).names = if name ∈ set.names then set.names else set.names ++ [name] := by
  unfold add
  split <;> rfl

/-- Names without repetition are a set already. -/
theorem names_ofList_of_nodup {names : List String} (hn : names.Nodup) :
    (ofList names).names = names := by
  have run : ∀ held : NameSet, (held.names ++ names).Nodup →
      (names.foldl add held).names = held.names ++ names := by
    clear hn
    induction names with
    | nil => simp
    | cons name rest ih =>
      intro held hn
      have fresh : name ∉ held.names := fun hm =>
        (List.nodup_append.mp hn).2.2 name hm name List.mem_cons_self rfl
      have first := (names_add held name).trans (if_neg fresh)
      rw [List.foldl_cons, ih _ (by rw [first]; simpa using hn), first, List.append_assoc]
      rfl
  exact run empty hn

/-- The names of a set are in it, in their order. -/
@[simp] theorem ofList_names (set : NameSet) : ofList set.names = set :=
  NameSet.ext (names_ofList_of_nodup set.distinct)

end NameSet

end SchemaGate
