import SchemaGate.Record.Reader

/-!
# Layouts of records

A layout lists the members of a record in the order of their declaration. A record may
be written as an object, whose members stand in any order and at most once, unknown
ones being passed over; or as a list of its members in declaration order. A member with
a default may be left out, in a list only together with all members after it.
-/

namespace SchemaGate

open Json (Draft)

/-- A member of a record of type `α`. -/
structure Member (α : Type) where
  /-- The key in a document. -/
  name : String
  /-- Whether the record can do without it. -/
  hasDefault : Bool
  /-- Read the member and put it into the record. -/
  read : Draft → α → Read α

namespace Member

variable {α β : Type}

/-- A member that must be present. -/
def needed (name : String) (read : Draft → Read β) (put : α → β → α) : Member α :=
  ⟨name, false, fun draft record => put record <$> read draft⟩

/-- A member that may be left out. -/
def defaulted (name : String) (read : Draft → Read β) (put : α → β → α) : Member α :=
  ⟨name, true, fun draft record => put record <$> read draft⟩

theorem read_needed {name : String} {read : Draft → Read β} {put : α → β → α} {draft : Draft}
    {part : β} (h : read draft = .ok part) (record : α) :
    (needed name read put).read draft record = .ok (put record part) :=
  Read.map_eq_ok_iff.mpr ⟨part, h, rfl⟩

theorem read_defaulted {name : String} {read : Draft → Read β} {put : α → β → α}
    {draft : Draft} {part : β} (h : read draft = .ok part) (record : α) :
    (defaulted name read put).read draft record = .ok (put record part) :=
  Read.map_eq_ok_iff.mpr ⟨part, h, rfl⟩

end Member

/-- The layout of a record of type `α`. -/
structure RecordLayout (α : Type) where
  /-- The name of the record in messages. -/
  name : String
  /-- The record with every default in place; its other members are always overwritten. -/
  blank : α
  /-- The members in declaration order. -/
  members : List (Member α)

namespace RecordLayout

variable {α : Type}

/-- The first member without default that was not seen. -/
def firstMissing? (layout : RecordLayout α) (seen : List String) : Option (Member α) :=
  layout.members.find? fun member => !member.hasDefault && !seen.contains member.name

/-- Read members in written order into a record; `seen` are the names read before. -/
def readMembers (layout : RecordLayout α) (seen : List String) (record : α) :
    List (Option String × Draft) → Read α
  | [] =>
    match layout.firstMissing? seen with
    | some member => Read.fault (.missing member.name)
    | none => pure record
  | (none, _) :: _ => Read.malformed
  | (some key, draft) :: rest =>
    match layout.members.find? (·.name == key) with
    | none => if draft.isWhole then readMembers layout seen record rest else Read.malformed
    | some member =>
      if seen.contains key then Read.fault (.duplicate key)
      else do
        let record ← member.read draft record
        readMembers layout (key :: seen) record rest

/-- Read a list of members from a given position on into a record. -/
def readElements (layout : RecordLayout α) (origin : Origin) (length : Nat) :
    (position : Nat) → List (Member α) → List Draft → α → Read α
  | _, [], [], record => pure record
  | _, [], _ :: _, _ =>
    match origin with
    | .value => Read.fault (.tooLong length)
    | .text => Read.malformed
  | position, member :: members, [], record =>
    if member.hasDefault then readElements layout origin length (position + 1) members [] record
    else Read.fault (.tooShort position layout.name layout.members.length)
  | position, member :: members, draft :: drafts, record => do
    let record ← member.read draft record
    readElements layout origin length (position + 1) members drafts record

/-- Read a record in either form. -/
def read (layout : RecordLayout α) (origin : Origin) (room : Nat) : Draft → Read α
  | .array drafts =>
    if room = 0 then Read.malformed
    else layout.readElements origin drafts.length 0 layout.members drafts layout.blank
  | .object members =>
    if room = 0 then Read.malformed
    else layout.readMembers [] layout.blank members
  | draft => Read.mismatch (.record layout.name) draft

section Steps

variable {layout : RecordLayout α} {seen : List String} {record : α}

theorem readMembers_nil (h : layout.firstMissing? seen = none) :
    layout.readMembers seen record [] = .ok record := by
  rw [readMembers, h]
  rfl

/-- A known member that was not seen before goes into the record. -/
theorem readMembers_cons {key : String} {draft : Draft} {next : α} {member : Member α}
    (known : layout.members.find? (·.name == key) = some member) (fresh : key ∉ seen)
    (read : member.read draft record = .ok next) (rest : List (Option String × Draft)) :
    layout.readMembers seen record ((some key, draft) :: rest) =
      layout.readMembers (key :: seen) next rest := by
  rw [readMembers, known]
  simp only [List.contains_eq_mem, fresh, decide_false, read]
  rfl

end Steps

section Kept

variable {layout : RecordLayout α} {p : α → Prop}

/-- Reading any member keeps a property of records. -/
def Keeps (layout : RecordLayout α) (p : α → Prop) : Prop :=
  ∀ member ∈ layout.members, ∀ draft record result, p record →
    member.read draft record = .ok result → p result

theorem Keeps.readMembers (keeps : layout.Keeps p) {seen : List String} {record result : α}
    {members : List (Option String × Draft)} (hp : p record)
    (h : layout.readMembers seen record members = .ok result) : p result := by
  induction members generalizing seen record with
  | nil =>
    unfold RecordLayout.readMembers at h
    split at h
    · cases h
    · exact Except.ok.inj h ▸ hp
  | cons entry rest ih =>
    obtain ⟨key, draft⟩ := entry
    cases key with
    | none => cases h
    | some key =>
      unfold RecordLayout.readMembers at h
      split at h
      · split at h
        · exact ih hp h
        · cases h
      · next member found =>
        split at h
        · cases h
        · obtain ⟨next, hn, h⟩ := Read.bind_eq_ok_iff.mp h
          exact ih (keeps member (List.mem_of_find?_eq_some found) _ _ _ hp hn) h

theorem Keeps.readElements (keeps : layout.Keeps p) {origin : Origin} {length position : Nat}
    {members : List (Member α)} {drafts : List Draft} {record result : α}
    (some_of : ∀ member ∈ members, member ∈ layout.members) (hp : p record)
    (h : layout.readElements origin length position members drafts record = .ok result) :
    p result := by
  induction members generalizing position drafts record with
  | nil =>
    cases drafts with
    | nil => exact Except.ok.inj h ▸ hp
    | cons draft drafts => cases origin <;> cases h
  | cons member members ih =>
    have others : ∀ other ∈ members, other ∈ layout.members :=
      fun other ho => some_of other (List.mem_cons_of_mem _ ho)
    cases drafts with
    | nil =>
      unfold RecordLayout.readElements at h
      split at h
      · exact ih others hp h
      · cases h
    | cons draft drafts =>
      obtain ⟨next, hn, h⟩ := Read.bind_eq_ok_iff.mp h
      exact ih others (keeps member (some_of member List.mem_cons_self) _ _ _ hp hn) h

/-- What holds of the blank record and is kept by every member holds of every record read. -/
theorem Keeps.read (keeps : layout.Keeps p) (blank : p layout.blank) {origin : Origin}
    {room : Nat} {draft : Draft} {result : α} (h : layout.read origin room draft = .ok result) :
    p result := by
  unfold RecordLayout.read at h
  split at h
  · split at h
    · cases h
    · exact keeps.readElements (fun _ hm => hm) blank h
  · split at h
    · cases h
    · exact keeps.readMembers blank h
  · exact absurd h Read.mismatch_ne_ok

end Kept

end RecordLayout

end SchemaGate
