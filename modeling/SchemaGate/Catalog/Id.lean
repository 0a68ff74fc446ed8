import SchemaGate.Json.Basic
import SchemaGate.Number.Notation

/-!
# Identifiers of stored records

Every stored record has a signed key of 64 bits. The kind of the record is part of
the type of its identifier, so that identifiers of different kinds do not mix.
Identifiers are ordered by their keys.
-/

namespace SchemaGate

/-- The kinds of stored records. -/
inductive IdKind where
  /-- Applications, which own interfaces and custom types. -/
  | app
  /-- Custom types. -/
  | type
  /-- Fields of custom types. -/
  | field
  /-- Interfaces. -/
  | interface
  /-- Parameters of interfaces. -/
  | parameter
  deriving DecidableEq, Repr

namespace IdKind

/-- The word in front of a displayed key. -/
def label : IdKind → String
  | app => "app"
  | type => "type"
  | field => "field"
  | interface => "iface"
  | parameter => "param"

/-- The name of the identifier type in listings. -/
def typeName : IdKind → String
  | app => "AppId"
  | type => "TypeId"
  | field => "FieldId"
  | interface => "InterfaceId"
  | parameter => "ParameterId"

end IdKind

/-- The key of a stored record of some kind. -/
structure Id (kind : IdKind) where
  /-- The key as stored. -/
  key : Int64
  deriving DecidableEq, Repr

/-- Identifiers of applications. -/
abbrev AppId := Id .app

/-- Identifiers of custom types. -/
abbrev TypeId := Id .type

/-- Identifiers of fields. -/
abbrev FieldId := Id .field

/-- Identifiers of interfaces. -/
abbrev InterfaceId := Id .interface

/-- Identifiers of parameters. -/
abbrev ParameterId := Id .parameter

namespace Id

variable {kind : IdKind}

/-- The identifier in messages: `type_9`. -/
def display (id : Id kind) : String :=
  kind.label ++ "_" ++ String.ofList (writeInt id.key.toInt)

/-- The identifier in listings: `TypeId(9)`. -/
def inspect (id : Id kind) : String :=
  kind.typeName ++ "(" ++ String.ofList (writeInt id.key.toInt) ++ ")"

/-- The identifier in documents, as its key. -/
def toJson (id : Id kind) : Json := .ofInt id.key.toInt

/-- Put an identifier into its place among rising ones, unless it is there. -/
def insertRising (id : Id kind) : List (Id kind) → List (Id kind)
  | [] => [id]
  | other :: rest =>
    if id.key < other.key then id :: other :: rest
    else if id = other then other :: rest
    else other :: insertRising id rest

/-- The identifiers of a list in rising order, each once. -/
def rising (ids : List (Id kind)) : List (Id kind) := ids.foldr insertRising []

theorem mem_insertRising {id other : Id kind} {ids : List (Id kind)} :
    other ∈ insertRising id ids ↔ other = id ∨ other ∈ ids := by
  induction ids with
  | nil => simp [insertRising]
  | cons first rest ih =>
    unfold insertRising
    split
    · simp
    · split
      · next h => simp [h]
      · simp [ih, or_left_comm]

theorem mem_rising {id : Id kind} {ids : List (Id kind)} : id ∈ rising ids ↔ id ∈ ids := by
  induction ids with
  | nil => simp [rising]
  | cons first rest ih =>
    simp only [rising, List.foldr_cons, mem_insertRising, List.mem_cons]
    exact or_congr_right ih

/-- An identifier put into its place leaves the others rising. -/
theorem pairwise_insertRising {id : Id kind} {ids : List (Id kind)}
    (h : ids.Pairwise fun a b => a.key < b.key) :
    (insertRising id ids).Pairwise fun a b => a.key < b.key := by
  induction ids with
  | nil => exact List.pairwise_singleton _ id
  | cons first rest ih =>
    obtain ⟨above, later⟩ := List.pairwise_cons.mp h
    unfold insertRising
    split
    · next hl =>
      refine List.pairwise_cons.mpr ⟨fun other ho => ?_, h⟩
      rcases List.mem_cons.mp ho with rfl | ho
      · exact hl
      · exact Int64.lt_trans hl (above other ho)
    · next hl =>
      split
      · exact h
      · next hne =>
        have hk : id.key ≠ first.key := fun he => hne (by cases id; cases first; cases he; rfl)
        refine List.pairwise_cons.mpr ⟨fun other ho => ?_, ih later⟩
        rcases mem_insertRising.mp ho with rfl | ho
        · exact Int64.lt_of_le_of_ne (Int64.not_lt.mp hl) hk.symm
        · exact above other ho

/-- Identifiers in rising order rise. -/
theorem pairwise_rising (ids : List (Id kind)) :
    (rising ids).Pairwise fun a b => a.key < b.key := by
  induction ids with
  | nil => exact List.Pairwise.nil
  | cons first rest ih => exact pairwise_insertRising ih

/-- Identifiers in rising order are distinct. -/
theorem nodup_rising (ids : List (Id kind)) : (rising ids).Nodup := by
  apply (pairwise_rising ids).imp
  intro a b hab he
  subst he
  exact Int64.lt_irrefl hab

/-- Rising order forgets in which order and how often identifiers were listed. -/
theorem rising_congr {ids others : List (Id kind)} (h : ∀ id, id ∈ ids ↔ id ∈ others) :
    rising ids = rising others := by
  have same : (rising ids).Perm (rising others) := by
    rw [List.perm_ext_iff_of_nodup (nodup_rising ids) (nodup_rising others)]
    intro id
    rw [mem_rising, mem_rising, h]
  exact same.eq_of_pairwise (fun _ _ _ _ hl hg => absurd hg (Int64.lt_asymm hl))
    (pairwise_rising ids) (pairwise_rising others)

theorem length_insertRising_le (id : Id kind) (ids : List (Id kind)) :
    (insertRising id ids).length ≤ ids.length + 1 := by
  induction ids with
  | nil => exact Nat.le_refl _
  | cons first rest ih =>
    unfold insertRising
    split
    · exact Nat.le_refl _
    · split
      · exact Nat.le_succ _
      · exact Nat.succ_le_succ ih

/-- Bringing identifiers into rising order adds none. -/
theorem length_rising_le (ids : List (Id kind)) : (rising ids).length ≤ ids.length := by
  induction ids with
  | nil => exact Nat.le_refl _
  | cons first rest ih =>
    exact Nat.le_trans (length_insertRising_le first _) (Nat.succ_le_succ ih)

end Id

end SchemaGate
