import SchemaGate.Json.Draft

/-!
# Reading values

The last stage of reading. A draft becomes a value in normal form if its text is whole,
its numbers and texts are such, and its brackets nest no deeper than allowed.

An object may embed a document as a text: then `embeddingKey` is its first key, the text
stands under it, and there is no other member. The object is read as the value that the
text spells. Brackets in an embedded document are counted anew, and further documents may
be embedded in it. A later key of the same name is a key like any other.
-/

namespace SchemaGate.Json

/-- The first key of an object that embeds a document. -/
def embeddingKey : String := "$serde_json::private::RawValue"

namespace Draft

/-- Whether an object with these members embeds a document. -/
def isEmbedding : List (Option String × Draft) → Bool
  | (some key, _) :: _ => key == embeddingKey
  | _ => false

/-- The text that an object with these members embeds: its only value. -/
def embedded? : List (Option String × Draft) → Option String
  | [(_, string value)] => value
  | _ => none

mutual

/-- The draft as a value in normal form, with at most `room` brackets nested; none if it
breaks off, holds a number or text that is none, or nests deeper. Texts of embedded
documents are read by `reread`. -/
def toJson? (reread : String → Option Json) (room : Nat) : Draft → Option Json
  | null => some .null
  | bool value => some (.bool value)
  | number value => value.map .number
  | string value => value.map .string
  | array elements =>
    match room with
    | 0 => none
    | room + 1 => (toElements? reread room elements).map .array
  | object members =>
    match room with
    | 0 => none
    | room + 1 =>
      if isEmbedding members then embedded? members >>= reread
      else (toMembers? reread room members).map (.object ∘ KeyedList.sorted)
  | broken => none
termination_by structural draft => draft

/-- Elements as values. -/
def toElements? (reread : String → Option Json) (room : Nat) : List Draft → Option (List Json)
  | [] => some []
  | draft :: rest => do
    let value ← toJson? reread room draft
    let values ← toElements? reread room rest
    return value :: values
termination_by structural elements => elements

/-- Members as values, in written order. -/
def toMembers? (reread : String → Option Json) (room : Nat) :
    List (Option String × Draft) → Option (List (String × Json))
  | [] => some []
  | (key, draft) :: rest => do
    let key ← key
    let value ← toJson? reread room draft
    let values ← toMembers? reread room rest
    return (key, value) :: values
termination_by structural members => members

end

end Draft

/-- The value that a text spells, in normal form, if fewer than `levels` embedded
documents lie in one another. -/
def ofTextWithin? : (levels : Nat) → String → Option Json
  | 0, _ => none
  | levels + 1, text =>
    match Draft.ofText text with
    | (draft, true) => draft.toJson? (ofTextWithin? levels) maxNesting
    | (_, false) => none

/-- The value that a text spells, in normal form. A document is shorter than the text
in which it is embedded, so there are no more levels than characters. -/
def ofText? (text : String) : Option Json := ofTextWithin? text.length text

example : ofText? "[1, null]" = some (array [ofInt 1, null]) := by decide +kernel

example : ofText? "\x7b\"b\": 1, \"a\": 2, \"b\": 3\x7d"
    = some (object [("a", ofInt 2), ("b", ofInt 3)]) := by decide +kernel

example : ofText? "[1, ]" = none := by decide +kernel

example : ofText? "[\x7b\"$serde_json::private::RawValue\": \"[1]\"\x7d]"
    = some (array [array [ofInt 1]]) := by decide +kernel

example : ofText? "\x7b\"$serde_json::private::RawValue\": \"1\", \"a\": 2\x7d" = none := by
  decide +kernel

end SchemaGate.Json
