import SchemaGate.Json.Parser
import SchemaGate.Json.Printer
import SchemaGate.Proofs.Text.Quoting

/-!
# Printed documents are drafted back

The tokens of a document on lines are those of its parts, whatever the indentation. Token by
token they move the machine of drafts from waiting for a value to having read the draft of the
document, on any stack of open brackets. Moves compose along the text, so a document moves the
machine as its parts do, one after the other.
-/

namespace SchemaGate.Json

open Draft (State Frame)

/-- A document without numbers, whose objects are in normal form and embed nothing. -/
inductive IsPlain : Json → Prop where
  /-- The word null. -/
  | null : IsPlain null
  /-- A truth value. -/
  | bool (value : Bool) : IsPlain (bool value)
  /-- A text. -/
  | string (value : String) : IsPlain (string value)
  /-- An array of such documents. -/
  | array {elements : List Json} :
      (∀ element ∈ elements, IsPlain element) → IsPlain (array elements)
  /-- An object of such documents under rising keys, none of which announces a document. -/
  | object {members : List (String × Json)} : KeyedList.IsRising members →
      (∀ entry ∈ members, entry.1 ≠ embeddingKey) → (∀ entry ∈ members, IsPlain entry.2) →
      IsPlain (object members)

/-- The text reads as the tokens, whatever follows it. -/
def Spells (text : List Char) (parts : List Token) : Prop :=
  ∀ (rest : List Char) (steps : Nat), (text ++ rest).length ≤ steps →
    ∃ left, rest.length ≤ left ∧
      tokensWithin steps (text ++ rest) = parts ++ tokensWithin left rest

namespace Spells

theorem nil : Spells [] [] := fun _ steps h => ⟨steps, h, rfl⟩

/-- Texts one after the other read as their tokens one after the other. -/
theorem append {first second : List Char} {parts others : List Token} (h : Spells first parts)
    (h' : Spells second others) : Spells (first ++ second) (parts ++ others) := by
  intro rest steps enough
  rw [List.append_assoc] at enough ⊢
  obtain ⟨middle, room, read⟩ := h (second ++ rest) steps enough
  obtain ⟨left, room, again⟩ := h' rest middle room
  exact ⟨left, room, by rw [read, again, List.append_assoc]⟩

/-- A blank reads as nothing. -/
theorem blank {c : Char} (h : isBlank c = true) : Spells [c] [] := by
  intro rest steps enough
  obtain ⟨steps, rfl⟩ := Nat.exists_eq_add_one.mpr (Nat.lt_of_lt_of_le (Nat.succ_pos _) enough)
  refine ⟨steps, Nat.le_of_succ_le_succ enough, ?_⟩
  rw [List.singleton_append, tokensWithin, if_pos h, List.nil_append]

/-- A text from which one token is taken reads as this token. -/
theorem token {c : Char} {text : List Char} {part : Token} (solid : isBlank c = false)
    (h : ∀ rest, scanToken (c :: (text ++ rest)) = some (part, rest)) :
    Spells (c :: text) [part] := by
  intro rest steps enough
  obtain ⟨steps, rfl⟩ := Nat.exists_eq_add_one.mpr (Nat.lt_of_lt_of_le (Nat.succ_pos _) enough)
  have room := Nat.le_of_succ_le_succ enough
  rw [List.append_eq, List.length_append] at room
  refine ⟨steps, by omega, ?_⟩
  rw [List.cons_append, tokensWithin, if_neg (by simp [solid]), h rest]
  rfl

end Spells

/-- Reading the text moves the machine from one state to another. -/
def Moves (text : List Char) (start stop : State) : Prop :=
  ∃ parts, Spells text parts ∧ parts.foldl State.step start = stop

namespace Moves

variable {start middle stop : State}

theorem append {first second : List Char} (h : Moves first start middle)
    (h' : Moves second middle stop) : Moves (first ++ second) start stop := by
  obtain ⟨parts, spells, rfl⟩ := h
  obtain ⟨others, spells', rfl⟩ := h'
  exact ⟨parts ++ others, spells.append spells', List.foldl_append⟩

/-- A token moves the machine one step. -/
theorem token (c : Char) (text : List Char) (part : Token) (solid : isBlank c = false)
    (h : ∀ rest, scanToken (c :: (text ++ rest)) = some (part, rest)) (start : State) :
    Moves (c :: text) start (start.step part) :=
  ⟨[part], .token solid h, rfl⟩

/-- Blanks do not move the machine. -/
theorem blanks {text : List Char} (h : ∀ c ∈ text, isBlank c = true) (start : State) :
    Moves text start start := by
  induction text with
  | nil => exact ⟨[], .nil, rfl⟩
  | cons c rest ih =>
    obtain ⟨parts, spells, moves⟩ := ih fun other hm => h other (List.mem_cons_of_mem _ hm)
    exact ⟨[] ++ parts, (Spells.blank (h c List.mem_cons_self)).append spells, moves⟩

/-- Nor does a new line. -/
theorem newline (indent : Nat) (start : State) : Moves (newline indent) start start := by
  refine blanks (fun c hm => ?_) start
  rcases List.mem_cons.mp hm with rfl | hm
  · decide
  · rw [List.eq_of_mem_replicate hm]
    decide

/-- Quoted text moves the machine by one token. -/
theorem quote (text : String) (start : State) :
    Moves (Text.quote text) start (start.step (.text (some text))) := by
  refine token '"' _ _ (by decide) (fun rest => ?_) start
  rw [List.append_assoc, List.singleton_append, scanToken, Text.scan_quoted, Option.map_some]
  dsimp only
  rw [Text.join_pieces, Option.map_some, String.ofList_toList]

end Moves

/-- Printed at any indentation, the value is drafted back on any stack. -/
def DraftsBack (value : Json) : Prop :=
  ∀ (indent : Nat) (stack : List Frame) (fresh : Bool),
    Moves (value.prettyChars indent) (.value stack fresh) (.after stack (Draft.ofJson value))

/-- A comma and a new line lead to the next element of an array. -/
theorem moves_nextElement (indent : Nat) (stack : List Frame) (before : List Draft)
    (draft : Draft) : Moves (',' :: newline indent) (.after (.array before :: stack) draft)
      (.value (.array (draft :: before) :: stack) false) := by
  have comma : Moves [','] (.after (.array before :: stack) draft)
      (.value (.array (draft :: before) :: stack) false) :=
    Moves.token ',' [] .comma (by decide) (fun _ => rfl) _
  exact comma.append (.newline indent _)

/-- A comma and a new line lead to the next key of an object. -/
theorem moves_nextKey (indent : Nat) (stack : List Frame) (before : List (Option String × Draft))
    (key : Option String) (draft : Draft) :
    Moves (',' :: newline indent) (.after (.object before key :: stack) draft)
      (.key stack ((key, draft) :: before) false) := by
  have comma : Moves [','] (.after (.object before key :: stack) draft)
      (.key stack ((key, draft) :: before) false) :=
    Moves.token ',' [] .comma (by decide) (fun _ => rfl) _
  exact comma.append (.newline indent _)

/-- Elements on lines are drafted one after the other, the last one not yet put to the others. -/
theorem moves_elements {element : Json} {rest : List Json}
    (each : ∀ other ∈ element :: rest, DraftsBack other) (indent : Nat) (stack : List Frame)
    (before : List Draft) (fresh : Bool) : ∃ read last,
      Moves ((',' :: newline indent).intercalate (prettyElements indent (element :: rest)))
        (.value (.array before :: stack) fresh) (.after (.array read :: stack) last) ∧
      (last :: read).reverse = before.reverse ++ Draft.ofElements (element :: rest) := by
  have first := each element List.mem_cons_self indent (.array before :: stack) fresh
  induction rest generalizing element before fresh with
  | nil =>
    refine ⟨before, Draft.ofJson element, ?_, List.reverse_cons⟩
    rw [prettyElements, prettyElements, List.intercalate_singleton]
    exact first
  | cons next rest ih =>
    have later : ∀ other ∈ next :: rest, DraftsBack other :=
      fun other hm => each other (List.mem_cons_of_mem _ hm)
    obtain ⟨read, last, moves, together⟩ := ih later (Draft.ofJson element :: before) false
      (later next List.mem_cons_self indent _ false)
    refine ⟨read, last, ?_, ?_⟩
    · rw [prettyElements, prettyElements, List.intercalate_cons_cons, ← prettyElements]
      exact (first.append (moves_nextElement indent stack before _)).append moves
    · rw [together, List.reverse_cons, List.append_assoc]
      rfl

/-- A member on its line is drafted up to its value. -/
theorem moves_member (key : String) {value : Json} (h : DraftsBack value) (indent : Nat)
    (stack : List Frame) (before : List (Option String × Draft)) (fresh : Bool) :
    Moves (Text.quote key ++ ':' :: ' ' :: value.prettyChars indent) (.key stack before fresh)
      (.after (.object before (some key) :: stack) (Draft.ofJson value)) := by
  have named : Moves (Text.quote key) (.key stack before fresh)
      (.colon stack before (some key)) := Moves.quote key _
  have colon : Moves [':'] (.colon stack before (some key))
      (.value (.object before (some key) :: stack) false) :=
    Moves.token ':' [] .colon (by decide) (fun _ => rfl) _
  have blank : Moves [' '] (.value (.object before (some key) :: stack) false)
      (.value (.object before (some key) :: stack) false) :=
    Moves.blanks (List.forall_mem_singleton.mpr rfl) _
  exact named.append (colon.append (blank.append (h indent _ false)))

/-- Members on lines are drafted one after the other, the last one not yet put to the others. -/
theorem moves_members {entry : String × Json} {rest : List (String × Json)}
    (each : ∀ other ∈ entry :: rest, DraftsBack other.2) (indent : Nat) (stack : List Frame)
    (before : List (Option String × Draft)) (fresh : Bool) : ∃ read key last,
      Moves ((',' :: newline indent).intercalate (prettyMembers indent (entry :: rest)))
        (.key stack before fresh) (.after (.object read key :: stack) last) ∧
      ((key, last) :: read).reverse = before.reverse ++ Draft.ofMembers (entry :: rest) := by
  obtain ⟨name, value⟩ := entry
  have first := moves_member name (each _ List.mem_cons_self) indent stack before fresh
  induction rest generalizing name value before fresh with
  | nil =>
    refine ⟨before, some name, Draft.ofJson value, ?_, List.reverse_cons⟩
    rw [prettyMembers, prettyMembers, List.intercalate_singleton]
    exact first
  | cons next rest ih =>
    obtain ⟨name', value'⟩ := next
    have later : ∀ other ∈ (name', value') :: rest, DraftsBack other.2 :=
      fun other hm => each other (List.mem_cons_of_mem _ hm)
    have second := moves_member name' (later _ List.mem_cons_self) indent stack
      ((some name, Draft.ofJson value) :: before) false
    obtain ⟨read, key, last, moves, together⟩ := ih _ false name' value' later second
    refine ⟨read, key, last, ?_, ?_⟩
    · rw [prettyMembers, prettyMembers, List.intercalate_cons_cons, ← prettyMembers]
      exact (first.append (moves_nextKey indent stack before _ _)).append moves
    · rw [together, List.reverse_cons, List.append_assoc]
      rfl

/-- An array is drafted back if its elements are. -/
theorem draftsBack_array {elements : List Json} (each : ∀ element ∈ elements, DraftsBack element) :
    DraftsBack (.array elements) := by
  intro indent stack fresh
  have opening : Moves ['['] (.value stack fresh) (.value (.array [] :: stack) true) :=
    Moves.token '[' [] .openArray (by decide) (fun _ => rfl) _
  cases elements with
  | nil =>
    have closing : Moves [']'] (.value (.array [] :: stack) true) (.after stack (.array [])) :=
      Moves.token ']' [] .closeArray (by decide) (fun _ => rfl) _
    exact opening.append closing
  | cons element rest =>
    obtain ⟨read, last, moves, together⟩ := moves_elements each (indent + 2) stack [] true
    have closing : Moves [']'] (.after (.array read :: stack) last)
        (.after stack (.array (last :: read).reverse)) :=
      Moves.token ']' [] .closeArray (by decide) (fun _ => rfl) _
    rw [together] at closing
    exact opening.append ((((Moves.newline (indent + 2) _).append moves).append
      (.newline indent _)).append closing)

/-- An object is drafted back if the values of its members are. -/
theorem draftsBack_object {members : List (String × Json)}
    (each : ∀ entry ∈ members, DraftsBack entry.2) : DraftsBack (.object members) := by
  intro indent stack fresh
  have opening : Moves ['{'] (.value stack fresh) (.key stack [] true) :=
    Moves.token '{' [] .openObject (by decide) (fun _ => rfl) _
  cases members with
  | nil =>
    have closing : Moves ['}'] (.key stack [] true) (.after stack (.object [])) :=
      Moves.token '}' [] .closeObject (by decide) (fun _ => rfl) _
    exact opening.append closing
  | cons entry rest =>
    obtain ⟨read, key, last, moves, together⟩ := moves_members each (indent + 2) stack [] true
    have closing : Moves ['}'] (.after (.object read key :: stack) last)
        (.after stack (.object ((key, last) :: read).reverse)) :=
      Moves.token '}' [] .closeObject (by decide) (fun _ => rfl) _
    rw [together] at closing
    exact opening.append ((((Moves.newline (indent + 2) _).append moves).append
      (.newline indent _)).append closing)

/-- Plain documents are drafted back. -/
theorem IsPlain.draftsBack {value : Json} (h : value.IsPlain) : DraftsBack value := by
  induction h with
  | null => exact fun _ _ _ => Moves.token 'n' ['u', 'l', 'l'] .null (by decide) (fun _ => rfl) _
  | bool value =>
    intro _ _ _
    cases value
    · exact Moves.token 'f' ['a', 'l', 's', 'e'] (.bool false) (by decide) (fun _ => rfl) _
    · exact Moves.token 't' ['r', 'u', 'e'] (.bool true) (by decide) (fun _ => rfl) _
  | string value => exact fun _ _ _ => Moves.quote value _
  | array _ ih => exact draftsBack_array ih
  | object _ _ _ ih => exact draftsBack_object ih

/-- The text of a plain document, with a final line break, has the draft of the document. -/
theorem IsPlain.ofText_pretty {value : Json} (h : value.IsPlain) :
    Draft.ofText (value.pretty ++ "\n") = (Draft.ofJson value, true) := by
  have ending : Moves ['\n'] (.after [] (Draft.ofJson value)) (.after [] (Draft.ofJson value)) :=
    Moves.blanks (List.forall_mem_singleton.mpr rfl) _
  obtain ⟨parts, spells, reached⟩ := (h.draftsBack 0 [] false).append ending
  have text : (value.pretty ++ "\n").toList = value.prettyChars 0 ++ ['\n'] := by
    rw [String.toList_append, pretty, String.toList_ofList]
    rfl
  obtain ⟨left, -, read⟩ := spells [] _ (Nat.le_refl _)
  have done : tokensWithin left [] = [] := by cases left <;> rfl
  rw [List.append_nil, done, List.append_nil] at read
  rw [Draft.ofText, tokens, text, read, reached]
  rfl

end SchemaGate.Json
