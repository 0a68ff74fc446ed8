import SchemaGate.Json.Basic
import SchemaGate.Json.Token

/-!
# Drafts of documents

The second stage of reading. A draft is what a text says up to its end or up to the
first place where it stops being a document: members in written order with their
repetitions, numbers as spelled, and a `broken` part where the text broke off. A
reader that walks a draft in written order therefore meets the first fault of a
document first, whether the fault is in its shape or in its text, and may pass over
parts that it does not want without reading their numbers and escapes.

Tokens are taken one by one by a machine with a stack of the arrays and objects that
are still open. `Draft.ofJson` is the draft of a value that is already read.
-/

namespace SchemaGate.Json

/-- A document as far as its text goes. -/
inductive Draft where
  /-- The word null. -/
  | null
  /-- A truth value. -/
  | bool (value : Bool)
  /-- A number; none beyond the largest finite one. -/
  | number (value : Option Number)
  /-- A text; none if an escape in it names no character. -/
  | string (value : Option String)
  /-- Elements in order. -/
  | array (elements : List Draft)
  /-- Members in order; a key is none where it is missing or names no text. -/
  | object (members : List (Option String × Draft))
  /-- The place where the text stops being a document. -/
  | broken

namespace Draft

/-- An array or object that is still open; what it holds so far stands in reverse. -/
inductive Frame where
  /-- An open array. -/
  | array (before : List Draft)
  /-- An open object waiting for the value of a key. -/
  | object (before : List (Option String × Draft)) (key : Option String)

/-- What the machine waits for. `fresh` says that a bracket was just opened and may
close again. -/
inductive State where
  /-- A value. -/
  | value (stack : List Frame) (fresh : Bool)
  /-- A key of an open object. -/
  | key (stack : List Frame) (before : List (Option String × Draft)) (fresh : Bool)
  /-- The colon after a key. -/
  | colon (stack : List Frame) (before : List (Option String × Draft)) (key : Option String)
  /-- What follows a value: a comma, a closing bracket, or the end. -/
  | after (stack : List Frame) (value : Draft)
  /-- Nothing: the document is over, and `clean` says that nothing followed it. -/
  | finished (root : Draft) (clean : Bool)

/-- Close every open bracket around a draft. -/
def enclose : List Frame → Draft → Draft
  | [], draft => draft
  | .array before :: stack, draft => enclose stack (.array (draft :: before).reverse)
  | .object before key :: stack, draft =>
    enclose stack (.object ((key, draft) :: before).reverse)

namespace State

/-- The document breaks off where the machine stands. -/
def breakOff : State → State
  | value stack _ => finished (enclose stack .broken) true
  | key stack before _ =>
    finished (enclose stack (.object ((none, .broken) :: before).reverse)) true
  | colon stack before k => finished (enclose stack (.object ((k, .broken) :: before).reverse)) true
  | after [] draft => finished draft false
  | after (.array before :: stack) draft =>
    finished (enclose stack (.array (.broken :: draft :: before).reverse)) true
  | after (.object before k :: stack) draft =>
    finished (enclose stack (.object ((none, .broken) :: (k, draft) :: before).reverse)) true
  | finished root clean => finished root clean

/-- One token. -/
def step (state : State) (token : Token) : State :=
  match state, token with
  | value stack _, .null => after stack .null
  | value stack _, .bool b => after stack (.bool b)
  | value stack _, .number n => after stack (.number n.value?)
  | value stack _, .text s => after stack (.string s)
  | value stack _, .openArray => value (.array [] :: stack) true
  | value stack _, .openObject => key stack [] true
  | value (.array [] :: stack) true, .closeArray => after stack (.array [])
  | key stack before _, .text k => colon stack before k
  | key stack [] true, .closeObject => after stack (.object [])
  | colon stack before k, .colon => value (.object before k :: stack) false
  | after (.array before :: stack) draft, .comma => value (.array (draft :: before) :: stack) false
  | after (.array before :: stack) draft, .closeArray =>
    after stack (.array (draft :: before).reverse)
  | after (.object before k :: stack) draft, .comma => key stack ((k, draft) :: before) false
  | after (.object before k :: stack) draft, .closeObject =>
    after stack (.object ((k, draft) :: before).reverse)
  | state, _ => state.breakOff

/-- The end of the text. -/
def finish : State → Draft × Bool
  | after [] draft => (draft, true)
  | state =>
    match state.breakOff with
    | finished root clean => (root, clean)
    | _ => (.broken, true)

end State

/-- The draft of a text, and whether nothing follows the document in it. -/
def ofText (text : String) : Draft × Bool :=
  ((tokens text.toList).foldl State.step (.value [] false)).finish

mutual

/-- The draft of a value. -/
def ofJson : Json → Draft
  | .null => null
  | .bool value => bool value
  | .number value => number (some value)
  | .string value => string (some value)
  | .array elements => array (ofElements elements)
  | .object members => object (ofMembers members)
termination_by structural value => value

/-- Drafts of elements. -/
def ofElements : List Json → List Draft
  | [] => []
  | value :: rest => ofJson value :: ofElements rest
termination_by structural elements => elements

/-- Drafts of members. -/
def ofMembers : List (String × Json) → List (Option String × Draft)
  | [] => []
  | (key, value) :: rest => (some key, ofJson value) :: ofMembers rest
termination_by structural members => members

end

mutual

/-- Whether the text does not break off within the draft. -/
def isWhole : Draft → Bool
  | broken => false
  | array elements => areWhole elements
  | object members => membersWhole members
  | _ => true
termination_by structural draft => draft

/-- Whether the text does not break off within elements. -/
def areWhole : List Draft → Bool
  | [] => true
  | draft :: rest => isWhole draft && areWhole rest
termination_by structural elements => elements

/-- Whether the text does not break off within members. -/
def membersWhole : List (Option String × Draft) → Bool
  | [] => true
  | (_, draft) :: rest => isWhole draft && membersWhole rest
termination_by structural members => members

end

mutual

/-- How deep brackets nest in a draft. -/
def nesting : Draft → Nat
  | array elements => nestingOfElements elements + 1
  | object members => nestingOfMembers members + 1
  | _ => 0
termination_by structural draft => draft

/-- How deep brackets nest within elements. -/
def nestingOfElements : List Draft → Nat
  | [] => 0
  | draft :: rest => max (nesting draft) (nestingOfElements rest)
termination_by structural elements => elements

/-- How deep brackets nest within members. -/
def nestingOfMembers : List (Option String × Draft) → Nat
  | [] => 0
  | (_, draft) :: rest => max (nesting draft) (nestingOfMembers rest)
termination_by structural members => members

end

theorem ofMembers_eq_map (members : List (String × Json)) :
    ofMembers members = members.map fun entry => (some entry.1, ofJson entry.2) := by
  induction members with
  | nil => rfl
  | cons entry rest ih => rw [ofMembers, ih, List.map_cons]

theorem ofMembers_append (front back : List (String × Json)) :
    ofMembers (front ++ back) = ofMembers front ++ ofMembers back := by
  simp only [ofMembers_eq_map, List.map_append]

theorem ofElements_eq_map (elements : List Json) : ofElements elements = elements.map ofJson := by
  induction elements with
  | nil => rfl
  | cons element rest ih => rw [ofElements, ih, List.map_cons]

/-- The elements of an array nest at most as deep as the array leaves room for. -/
theorem nesting_array_le_iff {elements : List Draft} {room : Nat} :
    (array elements).nesting ≤ room + 1 ↔ ∀ element ∈ elements, element.nesting ≤ room := by
  rw [nesting, Nat.add_le_add_iff_right]
  induction elements with
  | nil => simp [nestingOfElements]
  | cons element rest ih => rw [nestingOfElements, Nat.max_le, ih, List.forall_mem_cons]

/-- The members of an object nest at most as deep as the object leaves room for. -/
theorem nesting_object_le_iff {members : List (Option String × Draft)} {room : Nat} :
    (object members).nesting ≤ room + 1 ↔ ∀ member ∈ members, member.2.nesting ≤ room := by
  rw [nesting, Nat.add_le_add_iff_right]
  induction members with
  | nil => simp [nestingOfMembers]
  | cons member rest ih => rw [nestingOfMembers, Nat.max_le, ih, List.forall_mem_cons]

end Draft

/-- How many brackets may be open at once in a text. -/
def maxNesting : Nat := 127

end SchemaGate.Json
