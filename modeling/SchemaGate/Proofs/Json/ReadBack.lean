import SchemaGate.Json.Sorted
import SchemaGate.Proofs.Json.Drafting

/-!
# Documents are read back from their texts

Whatever is read from a text is in normal form, as are the documents embedded in it. A plain
document is drafted back from its text on lines, and its draft is read as the document as long
as its brackets nest no deeper than reading allows.
-/

namespace SchemaGate.Json

namespace Draft

section Sorted

variable {reread : String → Option Json}

/-- Embedded documents are read as values in normal form. -/
def RereadsSorted (reread : String → Option Json) : Prop :=
  ∀ text value, reread text = some value → value.IsSorted

mutual

/-- A value that is read from a draft is in normal form if those are that are embedded in it. -/
theorem isSorted_of_toJson? (hr : RereadsSorted reread) : (draft : Draft) → ∀ {room value},
    toJson? reread room draft = some value → value.IsSorted
  | null, _, _, h => Option.some.inj h ▸ .null
  | bool value, _, _, h => Option.some.inj h ▸ .bool value
  | number value, _, _, h => by
    obtain ⟨found, -, rfl⟩ := Option.map_eq_some_iff.mp h
    exact .number found
  | string value, _, _, h => by
    obtain ⟨found, -, rfl⟩ := Option.map_eq_some_iff.mp h
    exact .string found
  | array elements, 0, _, h => by cases h
  | array elements, room + 1, _, h => by
    obtain ⟨found, read, rfl⟩ := Option.map_eq_some_iff.mp h
    exact .array (isSorted_of_toElements? hr elements read)
  | object members, 0, _, h => by cases h
  | object members, room + 1, value, h => by
    rw [toJson?] at h
    split at h
    · obtain ⟨text, -, found⟩ := Option.bind_eq_some_iff.mp h
      exact hr text value found
    · obtain ⟨found, read, rfl⟩ := Option.map_eq_some_iff.mp h
      refine .object (KeyedList.isRising_sorted found) fun entry hm => ?_
      exact isSorted_of_toMembers? hr members read entry (KeyedList.mem_of_mem_sorted hm)
  | broken, _, _, h => by cases h

theorem isSorted_of_toElements? (hr : RereadsSorted reread) :
    (drafts : List Draft) → ∀ {room values}, toElements? reread room drafts = some values →
      ∀ value ∈ values, value.IsSorted
  | [], _, _, h => by
    obtain rfl := Option.some.inj h
    exact fun _ hm => absurd hm List.not_mem_nil
  | draft :: rest, _, _, h => by
    obtain ⟨first, read, h⟩ := Option.bind_eq_some_iff.mp h
    obtain ⟨others, later, h⟩ := Option.bind_eq_some_iff.mp h
    obtain rfl := Option.some.inj h
    rw [List.forall_mem_cons]
    exact ⟨isSorted_of_toJson? hr draft read, isSorted_of_toElements? hr rest later⟩

theorem isSorted_of_toMembers? (hr : RereadsSorted reread) :
    (drafts : List (Option String × Draft)) → ∀ {room members},
      toMembers? reread room drafts = some members → ∀ entry ∈ members, entry.2.IsSorted
  | [], _, _, h => by
    obtain rfl := Option.some.inj h
    exact fun _ hm => absurd hm List.not_mem_nil
  | (key, draft) :: rest, _, _, h => by
    obtain ⟨name, -, h⟩ := Option.bind_eq_some_iff.mp h
    obtain ⟨first, read, h⟩ := Option.bind_eq_some_iff.mp h
    obtain ⟨others, later, h⟩ := Option.bind_eq_some_iff.mp h
    obtain rfl := Option.some.inj h
    rw [List.forall_mem_cons]
    exact ⟨isSorted_of_toJson? hr draft read, isSorted_of_toMembers? hr rest later⟩

end

end Sorted

section ReadBack

variable {reread : String → Option Json} {room : Nat}

/-- Elements are read back if each one is. -/
theorem toElements?_ofElements {elements : List Json}
    (each : ∀ element ∈ elements, toJson? reread room (ofJson element) = some element) :
    toElements? reread room (ofElements elements) = some elements := by
  induction elements with
  | nil => rfl
  | cons element rest ih =>
    rw [List.forall_mem_cons] at each
    rw [ofElements, toElements?, each.1, ih each.2]
    rfl

/-- Members are read back in their order if the value of each one is. -/
theorem toMembers?_ofMembers {members : List (String × Json)}
    (each : ∀ entry ∈ members, toJson? reread room (ofJson entry.2) = some entry.2) :
    toMembers? reread room (ofMembers members) = some members := by
  induction members with
  | nil => rfl
  | cons entry rest ih =>
    rw [List.forall_mem_cons] at each
    rw [ofMembers, toMembers?, each.1, ih each.2]
    rfl

end ReadBack

end Draft

/-- What is read from a text is in normal form, however many documents lie in one another. -/
theorem isSorted_of_ofTextWithin? {levels : Nat} {text : String} {value : Json}
    (h : ofTextWithin? levels text = some value) : value.IsSorted := by
  induction levels generalizing text value with
  | zero => cases h
  | succ levels ih =>
    unfold ofTextWithin? at h
    split at h
    · exact Draft.isSorted_of_toJson? (fun _ _ => ih) _ h
    · cases h

/-- What is read from a text is in normal form. -/
theorem isSorted_of_ofText? {text : String} {value : Json} (h : ofText? text = some value) :
    value.IsSorted :=
  isSorted_of_ofTextWithin? h

namespace IsPlain

/-- The draft of a plain document is read as the document if there is room for its brackets. -/
theorem toJson?_ofJson {value : Json} (h : value.IsPlain) (reread : String → Option Json)
    {room : Nat} (fit : (Draft.ofJson value).nesting ≤ room) :
    (Draft.ofJson value).toJson? reread room = some value := by
  induction h generalizing room with
  | null => rfl
  | bool value => rfl
  | string value => rfl
  | array _ ih =>
    obtain ⟨room, rfl⟩ := Nat.exists_eq_add_one.mpr (Nat.lt_of_lt_of_le (Nat.succ_pos _) fit)
    rw [Draft.ofJson, Draft.nesting_array_le_iff, Draft.ofElements_eq_map,
      List.forall_mem_map] at fit
    rw [Draft.ofJson, Draft.toJson?, Draft.toElements?_ofElements fun e hm => ih e hm (fit e hm)]
    rfl
  | @object members rising names _ ih =>
    obtain ⟨room, rfl⟩ := Nat.exists_eq_add_one.mpr (Nat.lt_of_lt_of_le (Nat.succ_pos _) fit)
    rw [Draft.ofJson, Draft.nesting_object_le_iff, Draft.ofMembers_eq_map,
      List.forall_mem_map] at fit
    have embeds : Draft.isEmbedding (Draft.ofMembers members) = false := by
      cases members with
      | nil => rfl
      | cons entry rest => exact beq_false_of_ne (names entry List.mem_cons_self)
    rw [Draft.ofJson, Draft.toJson?, embeds,
      Draft.toMembers?_ofMembers fun e hm => ih e hm (fit e hm)]
    exact congrArg (some ∘ Json.object) (KeyedList.sorted_of_isRising rising)

/-- A plain document is read back from its text on lines unless it nests too deep. -/
theorem ofText?_pretty {value : Json} (h : value.IsPlain)
    (fit : (Draft.ofJson value).nesting ≤ maxNesting) :
    ofText? (value.pretty ++ "\n") = some value := by
  have long : 0 < (value.pretty ++ "\n").length := by
    rw [String.length_append]
    exact Nat.lt_of_lt_of_le (by decide) (Nat.le_add_left _ _)
  obtain ⟨levels, enough⟩ := Nat.exists_eq_add_one.mpr long
  rw [ofText?, enough, ofTextWithin?, h.ofText_pretty]
  exact h.toJson?_ofJson _ fit

end IsPlain

end SchemaGate.Json
