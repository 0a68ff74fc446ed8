import SchemaGate.Json.Basic
import SchemaGate.Number.Notation
import SchemaGate.Text.Quoted

/-!
# Printing JSON

`compact` writes a document without any blank; `pretty` puts every element and
member on a line of its own, two blanks further in than its parent, and keeps empty
arrays and objects closed. Both write members in the order in which they stand.
-/

namespace SchemaGate.Json

mutual

/-- The document without blanks. -/
def compactChars : Json → List Char
  | null => ['n', 'u', 'l', 'l']
  | bool true => ['t', 'r', 'u', 'e']
  | bool false => ['f', 'a', 'l', 's', 'e']
  | number value => value.write
  | string value => Text.quote value
  | array elements => '[' :: ([','].intercalate (compactElements elements) ++ [']'])
  | object members => '{' :: ([','].intercalate (compactMembers members) ++ ['}'])
termination_by structural value => value

/-- Each element without blanks. -/
def compactElements : List Json → List (List Char)
  | [] => []
  | value :: rest => compactChars value :: compactElements rest
termination_by structural elements => elements

/-- Each member without blanks. -/
def compactMembers : List (String × Json) → List (List Char)
  | [] => []
  | (key, value) :: rest => (Text.quote key ++ ':' :: compactChars value) :: compactMembers rest
termination_by structural members => members

end

/-- A line break and the blanks of an indentation. -/
def newline (indent : Nat) : List Char := '\n' :: List.replicate indent ' '

/-- Lines between brackets, indented; nothing between the brackets if there are none. -/
def block (opening closing : Char) (indent : Nat) (lines : List (List Char)) : List Char :=
  if lines.isEmpty then [opening, closing]
  else opening :: (newline (indent + 2) ++
    (',' :: newline (indent + 2)).intercalate lines ++ newline indent ++ [closing])

mutual

/-- The document on lines, its first line standing at an indentation. -/
def prettyChars (indent : Nat) : Json → List Char
  | null => ['n', 'u', 'l', 'l']
  | bool true => ['t', 'r', 'u', 'e']
  | bool false => ['f', 'a', 'l', 's', 'e']
  | number value => value.write
  | string value => Text.quote value
  | array elements => block '[' ']' indent (prettyElements (indent + 2) elements)
  | object members => block '{' '}' indent (prettyMembers (indent + 2) members)
termination_by structural value => value

/-- Each element on lines. -/
def prettyElements (indent : Nat) : List Json → List (List Char)
  | [] => []
  | value :: rest => prettyChars indent value :: prettyElements indent rest
termination_by structural elements => elements

/-- Each member on lines. -/
def prettyMembers (indent : Nat) : List (String × Json) → List (List Char)
  | [] => []
  | (key, value) :: rest =>
    (Text.quote key ++ ':' :: ' ' :: prettyChars indent value) :: prettyMembers indent rest
termination_by structural members => members

end

/-- The text of a document without blanks. -/
def compact (value : Json) : String := String.ofList value.compactChars

/-- The text of a document on lines. -/
def pretty (value : Json) : String := String.ofList (value.prettyChars 0)

example : (object [("a", array [ofInt 1, null]), ("b", object [])]).compactChars
    = "\x7b\"a\":[1,null],\"b\":\x7b\x7d\x7d".toList := by decide +kernel

end SchemaGate.Json
