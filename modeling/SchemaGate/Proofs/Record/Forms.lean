import SchemaGate.Json.Sorted
import SchemaGate.Record.Layout
import Mathlib.Data.List.Forall2
import Mathlib.Data.List.Nodup
import Mathlib.Data.List.Pairwise
import Mathlib.Data.List.Perm.Basic

/-!
# The forms of a record

The members of a record can be written as an object, in any order, or as a list, in the order
of their declaration. A member that holds its default may be left out; in a list only together
with all members after it. `MembersForm` says which documents these are, and
`RecordLayout.Fills.read` that a layout reads the record from all of them.

What a member does to a record is kept as a function (`Entry.put`). These functions commute,
so the order of the members is lost, and at its default a member does nothing to the blank
record, so it makes no difference whether it is written.
-/

namespace SchemaGate

open Json (Draft)

/-- The documents in which members can be written. -/
inductive MembersForm (defaults members : List (String × Json)) : Json → Prop where
  /-- An object without some of the members that hold their default, in any order. -/
  | object {kept omitted : List (String × Json)} :
      (kept ++ omitted).Perm members → omitted ⊆ defaults →
      MembersForm defaults members (.object kept)
  /-- A list without the last members, as far as they hold their default. -/
  | list {front back : List (String × Json)} :
      members = front ++ back → back ⊆ defaults →
      MembersForm defaults members (.array (front.map Prod.snd))

/-- The values of the members of an object, as a list. -/
def Json.positional : Json → Json
  | .object members => .array (members.map Prod.snd)
  | value => value

/-- In lists that are related in pairs, everything in the first is related to something in the
second. -/
theorem exists_of_forall₂ {α β : Type} {r : α → β → Prop} {elements : List α} {others : List β}
    (h : List.Forall₂ r elements others) :
    ∀ element ∈ elements, ∃ other ∈ others, r element other := by
  induction h with
  | nil => exact fun _ hm => absurd hm List.not_mem_nil
  | cons related _ ih =>
    intro element hm
    rcases List.mem_cons.mp hm with rfl | hm
    · exact ⟨_, List.mem_cons_self, related⟩
    · obtain ⟨other, listed, related⟩ := ih element hm
      exact ⟨other, List.mem_cons_of_mem _ listed, related⟩

namespace MembersForm

variable {defaults members : List (String × Json)}

/-- All members as a list. -/
theorem positional (defaults members : List (String × Json)) :
    MembersForm defaults members (Json.object members).positional :=
  .list (List.append_nil members).symm (List.nil_subset defaults)

/-- All members as they are. -/
theorem whole (defaults members : List (String × Json)) :
    MembersForm defaults members (.object members) :=
  .object (.of_eq (List.append_nil members)) (List.nil_subset defaults)

/-- All members in rising order. -/
theorem sorted (hn : (KeyedList.keys members).Nodup)
    (normal : ∀ member ∈ members, member.2.sorted = member.2) (defaults : List (String × Json)) :
    MembersForm defaults members (Json.object members).sorted := by
  have same : Json.sortedMembers members = members := by
    have each : ∀ member ∈ members, (member.1, member.2.sorted) = id member :=
      fun member hm => Prod.ext rfl (normal member hm)
    rw [Json.sortedMembers_eq_map, List.map_congr_left each, List.map_id]
  have perm := KeyedList.sorted_perm hn
  rw [← List.append_nil (KeyedList.sorted members)] at perm
  rw [Json.sorted, same]
  exact .object perm (List.nil_subset defaults)

/-- A form has brackets of its own. -/
theorem exists_room {document : Json} (h : MembersForm defaults members document) {room : Nat}
    (fit : (Draft.ofJson document).nesting ≤ room) : ∃ inner, room = inner + 1 := by
  cases h with
  | object => exact Nat.exists_eq_add_one.mpr (Nat.lt_of_lt_of_le (Nat.succ_pos _) fit)
  | list => exact Nat.exists_eq_add_one.mpr (Nat.lt_of_lt_of_le (Nat.succ_pos _) fit)

end MembersForm

/-- A member of a record as it is written, and what it does to a record. -/
structure Entry (α : Type) where
  /-- The key. -/
  name : String
  /-- The value under it. -/
  part : Json
  /-- Put the value into a record. -/
  put : α → α

namespace Entry

variable {α : Type}

/-- The entry in a document. -/
def member (entry : Entry α) : String × Json := (entry.name, entry.part)

/-- Put entries into a record one by one. -/
def putAll (entries : List (Entry α)) (record : α) : α :=
  entries.foldl (fun record entry => entry.put record) record

/-- It does not matter which of the entries is put first. -/
def Commutes (a b : Entry α) : Prop := ∀ record, a.put (b.put record) = b.put (a.put record)

instance : Std.Symm (Commutes (α := α)) := ⟨fun _ _ h record => (h record).symm⟩

/-- The entry leaves room for its brackets. -/
def IsShallow (room : Nat) (entry : Entry α) : Prop := (Draft.ofJson entry.part).nesting ≤ room

/-- A member of a layout takes the entry where there is room for its brackets. -/
structure Fits (layout : RecordLayout α) (defaults : List (String × Json)) (room : Nat)
    (member : Member α) (entry : Entry α) : Prop where
  /-- They have the same name. -/
  name : member.name = entry.name
  /-- The member is read as the entry says. -/
  read : entry.IsShallow room → ∀ record,
    member.read (Draft.ofJson entry.part) record = .ok (entry.put record)
  /-- At its default the member may be left out, and changes nothing in the blank record. -/
  default : entry.member ∈ defaults →
    member.hasDefault = true ∧ entry.put layout.blank = layout.blank

end Entry

namespace RecordLayout

variable {α : Type} {layout : RecordLayout α} {defaults : List (String × Json)} {room : Nat}
  {entries : List (Entry α)} {record : α}

/-- Members that take the entries of a list in order have their names. -/
theorem names_of_fits {members : List (Member α)}
    (h : List.Forall₂ (Entry.Fits layout defaults room) members entries) :
    members.map Member.name = entries.map Entry.name := by
  induction h with
  | nil => rfl
  | cons fits _ ih => rw [List.map_cons, List.map_cons, fits.name, ih]

/-- The entries are those of the record, one for each member of the layout. -/
structure Fills (layout : RecordLayout α) (defaults : List (String × Json)) (room : Nat)
    (entries : List (Entry α)) (record : α) : Prop where
  /-- The members take the entries in order. -/
  fits : List.Forall₂ (Entry.Fits layout defaults room) layout.members entries
  /-- The entries have distinct names. -/
  distinct : (entries.map Entry.name).Nodup
  /-- Their order does not matter. -/
  commutes : entries.Pairwise Entry.Commutes
  /-- All entries together are the record, whatever was there before. -/
  whole : ∀ before, Entry.putAll entries before = record

namespace Fills

/-- Entries that hold their defaults change nothing in the blank record. -/
theorem putAll_defaults (h : layout.Fills defaults room entries record) {omitted : List (Entry α)}
    (some_of : omitted ⊆ entries) (held : omitted.map Entry.member ⊆ defaults) :
    Entry.putAll omitted layout.blank = layout.blank := by
  induction omitted with
  | nil => rfl
  | cons entry rest ih =>
    rw [List.map_cons, List.cons_subset] at held
    rw [List.cons_subset] at some_of
    obtain ⟨member, -, fits⟩ := exists_of_forall₂ h.fits.flip entry some_of.1
    rw [Entry.putAll, List.foldl_cons, (fits.default held.1).2]
    exact ih some_of.2 held.2

/-- Entries in any order put together the record, also without some that hold their default. -/
theorem putAll_eq (h : layout.Fills defaults room entries record) {kept omitted : List (Entry α)}
    (perm : (kept ++ omitted).Perm entries) (held : omitted.map Entry.member ⊆ defaults) :
    Entry.putAll kept layout.blank = record := by
  have some_of : omitted ⊆ entries := fun _ hm => perm.subset (List.mem_append_right _ hm)
  have order : (omitted ++ kept).Perm entries := List.perm_append_comm.trans perm
  calc Entry.putAll kept layout.blank
      = Entry.putAll kept (Entry.putAll omitted layout.blank) := by
        rw [h.putAll_defaults some_of held]
    _ = Entry.putAll (omitted ++ kept) layout.blank := List.foldl_append.symm
    _ = Entry.putAll entries layout.blank := by
      refine order.foldl_eq' (fun a ha b hb before => ?_) layout.blank
      have commute := List.Pairwise.forall_of_forall (fun _ _ _ => rfl) h.commutes
      exact commute (order.subset hb) (order.subset ha) before
    _ = record := h.whole layout.blank

/-- The layout knows each entry by its name. -/
theorem find?_member (h : layout.Fills defaults room entries record) {entry : Entry α}
    (hm : entry ∈ entries) : ∃ member, layout.members.find? (·.name == entry.name) = some member ∧
      Entry.Fits layout defaults room member entry := by
  obtain ⟨member, listed, fits⟩ := exists_of_forall₂ h.fits.flip entry hm
  have distinct : (layout.members.map Member.name).Nodup := names_of_fits h.fits ▸ h.distinct
  cases found : layout.members.find? (·.name == entry.name) with
  | none =>
    have unknown := List.find?_eq_none.mp found member listed
    rw [fits.name, beq_self_eq_true] at unknown
    exact absurd rfl unknown
  | some other =>
    have named : other.name = entry.name := by simpa using List.find?_some found
    have same : other = member := List.inj_on_of_nodup_map distinct
      (List.mem_of_find?_eq_some found) listed (named.trans fits.name.symm)
    exact ⟨other, rfl, same ▸ fits⟩

/-- Written entries are put one by one, if nothing is missing at the end. -/
theorem readMembers (h : layout.Fills defaults room entries record) {kept : List (Entry α)}
    {seen : List String} {before : α} (some_of : kept ⊆ entries)
    (shallow : ∀ entry ∈ kept, entry.IsShallow room)
    (distinct : (kept.map Entry.name).Nodup) (fresh : ∀ entry ∈ kept, entry.name ∉ seen)
    (complete : ∀ member ∈ layout.members, member.hasDefault = false →
      member.name ∈ seen ∨ member.name ∈ kept.map Entry.name) :
    layout.readMembers seen before (Draft.ofMembers (kept.map Entry.member)) =
      .ok (Entry.putAll kept before) := by
  induction kept generalizing seen before with
  | nil =>
    refine readMembers_nil (List.find?_eq_none.mpr fun member hm => ?_)
    cases needed : member.hasDefault with
    | true => simp
    | false =>
      have present := complete member hm needed
      simpa using present
  | cons entry rest ih =>
    rw [List.cons_subset] at some_of
    rw [List.map_cons, List.nodup_cons] at distinct
    obtain ⟨member, known, fits⟩ := h.find?_member some_of.1
    have unseen := fresh entry List.mem_cons_self
    have opened := shallow entry List.mem_cons_self
    have step := readMembers_cons known unseen (fits.read opened before)
      (Draft.ofMembers (rest.map Entry.member))
    rw [List.map_cons, Entry.member, Draft.ofMembers, step]
    refine ih some_of.2 (fun other ho => shallow other (List.mem_cons_of_mem _ ho)) distinct.2 ?_ ?_
    · intro other ho hs
      rcases List.mem_cons.mp hs with same | hs
      · exact distinct.1 (same ▸ List.mem_map_of_mem ho)
      · exact fresh other (List.mem_cons_of_mem _ ho) hs
    · intro other ho needed
      have present := complete other ho needed
      rw [List.map_cons, List.mem_cons] at present
      rw [List.mem_cons, or_assoc]
      exact or_left_comm.mp present

/-- Listed entries are put one by one, if the members after them have defaults. -/
theorem readElements {members : List (Member α)} {front back : List (Entry α)}
    (fits : List.Forall₂ (Entry.Fits layout defaults room) members (front ++ back))
    (held : back.map Entry.member ⊆ defaults) (shallow : ∀ entry ∈ front, entry.IsShallow room)
    (origin : Origin) (length position : Nat) (before : α) :
    layout.readElements origin length position members
      (Draft.ofElements (front.map Entry.part)) before = .ok (Entry.putAll front before) := by
  induction members generalizing front back position before with
  | nil =>
    cases front with
    | nil => rfl
    | cons entry rest => cases fits
  | cons member members ih =>
    cases front with
    | nil =>
      cases back with
      | nil => cases fits
      | cons entry rest =>
        obtain ⟨taken, others⟩ := List.forall₂_cons.mp fits
        rw [List.map_cons, List.cons_subset] at held
        have next := @ih [] rest others held.2 shallow (position + 1) before
        simp only [List.map_nil, Draft.ofElements] at next ⊢
        rw [RecordLayout.readElements, if_pos (taken.default held.1).1, next]
    | cons entry rest =>
      obtain ⟨taken, others⟩ := List.forall₂_cons.mp fits
      have read := taken.read (shallow entry List.mem_cons_self) before
      rw [List.map_cons, Draft.ofElements, RecordLayout.readElements, read]
      have later := fun other ho => shallow other (List.mem_cons_of_mem _ ho)
      exact ih others held later (position + 1) (entry.put before)

/-- The record is read from every form of its members. -/
theorem read (h : layout.Fills defaults room entries record) {document : Json}
    (form : MembersForm defaults (entries.map Entry.member) document)
    (fit : (Draft.ofJson document).nesting ≤ room + 1) (origin : Origin) :
    layout.read origin (room + 1) (Draft.ofJson document) = .ok record := by
  cases form with
  | @object kept omitted perm held =>
    obtain ⟨written, split, order⟩ : ∃ written : List (Entry α),
        kept ++ omitted = written.map Entry.member ∧ written.Perm entries := by
      have composed := List.eq_map_comp_perm (Entry.member (α := α))
      exact (congrFun₂ composed _ _).mpr perm
    obtain ⟨kept, omitted, rfl, rfl, rfl⟩ := List.append_eq_map_iff.mp split
    have some_of : kept ⊆ entries := fun _ hm => order.subset (List.mem_append_left _ hm)
    have distinct : ((kept ++ omitted).map Entry.name).Nodup :=
      (order.map Entry.name).nodup_iff.mpr h.distinct
    rw [List.map_append, List.nodup_append] at distinct
    have shallow : ∀ entry ∈ kept, entry.IsShallow room := by
      rw [Draft.ofJson, Draft.ofMembers_eq_map, List.map_map, Draft.nesting_object_le_iff,
        List.forall_mem_map] at fit
      exact fit
    have complete : ∀ member ∈ layout.members, member.hasDefault = false →
        member.name ∈ [] ∨ member.name ∈ kept.map Entry.name := by
      intro member hm needed
      obtain ⟨entry, listed, fits⟩ := exists_of_forall₂ h.fits member hm
      rcases List.mem_append.mp (order.symm.subset listed) with hk | ho
      · exact .inr (List.mem_map.mpr ⟨entry, hk, fits.name.symm⟩)
      · have optional := (fits.default (held (List.mem_map_of_mem ho))).1
        rw [needed] at optional
        cases optional
    have steps : layout.readMembers [] layout.blank _ = .ok (Entry.putAll kept layout.blank) :=
      h.readMembers some_of shallow distinct.1 (fun _ _ => List.not_mem_nil) complete
    rw [Draft.ofJson, RecordLayout.read, if_neg (Nat.succ_ne_zero room), steps,
      h.putAll_eq order held]
  | @list front back split held =>
    obtain ⟨front, back, rfl, rfl, rfl⟩ := List.map_eq_append_iff.mp split
    have parts : (front.map Entry.member).map Prod.snd = front.map Entry.part := by
      rw [List.map_map]
      rfl
    have shallow : ∀ entry ∈ front, entry.IsShallow room := by
      rw [parts, Draft.ofJson, Draft.ofElements_eq_map, List.map_map, Draft.nesting_array_le_iff,
        List.forall_mem_map] at fit
      exact fit
    have steps := readElements h.fits held shallow origin
      (Draft.ofElements (front.map Entry.part)).length 0 layout.blank
    rw [parts, Draft.ofJson, RecordLayout.read, if_neg (Nat.succ_ne_zero room), steps,
      h.putAll_eq (.refl _) held]

end Fills

end RecordLayout

end SchemaGate
