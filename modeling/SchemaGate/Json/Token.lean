import SchemaGate.Number.Numeral
import SchemaGate.Text.Quoted

/-!
# Tokens of a document

The first stage of reading: the characters of a document become tokens, and blanks
between tokens disappear. Blanks are the space, the tab, the line feed and the
carriage return. Where the characters are no token, the tokens end with a defect, and
what follows it is never looked at.
-/

namespace SchemaGate.Json

/-- A token of a document. -/
inductive Token where
  /-- An opening square bracket. -/
  | openArray
  /-- A closing square bracket. -/
  | closeArray
  /-- An opening brace. -/
  | openObject
  /-- A closing brace. -/
  | closeObject
  /-- A comma. -/
  | comma
  /-- A colon. -/
  | colon
  /-- The word null. -/
  | null
  /-- The words true and false. -/
  | bool (value : Bool)
  /-- A number as spelled. -/
  | number (value : Numeral)
  /-- Quoted text; none if an escape in it names no character. -/
  | text (value : Option String)
  /-- The place where the characters are no token. -/
  | defect
  deriving DecidableEq, Repr

/-- Blanks may stand between tokens. -/
def isBlank (c : Char) : Bool := c == ' ' || c == '\t' || c == '\n' || c == '\r'

/-- The value of a decimal digit. -/
def digit? (c : Char) : Option Nat :=
  if '0' ≤ c ∧ c ≤ '9' then some (c.toNat - '0'.toNat) else none

/-- The digits at the start of a text, and the text after them. -/
def takeDigits : List Char → List Nat × List Char
  | [] => ([], [])
  | c :: rest =>
    match digit? c with
    | none => ([], c :: rest)
    | some d =>
      let (digits, after) := takeDigits rest
      (d :: digits, after)

/-- The fraction at the start of a text, if a point stands there; a point needs digits. -/
def scanFraction : List Char → Option (List Nat × List Char)
  | '.' :: rest =>
    match takeDigits rest with
    | ([], _) => none
    | (digits, after) => some (digits, after)
  | rest => some ([], rest)

/-- The exponent at the start of a text, if its letter stands there; it needs digits. -/
def scanExponent (text : List Char) : Option (Option (Bool × List Nat) × List Char) :=
  let signed (rest : List Char) : Option (Option (Bool × List Nat) × List Char) :=
    let (negative, rest) := match rest with
      | '-' :: rest => (true, rest)
      | '+' :: rest => (false, rest)
      | rest => (false, rest)
    match takeDigits rest with
    | ([], _) => none
    | (digits, after) => some (some (negative, digits), after)
  match text with
  | 'e' :: rest => signed rest
  | 'E' :: rest => signed rest
  | rest => some (none, rest)

/-- The numeral at the start of a text. Only a lone zero starts with zero. -/
def scanNumeral (text : List Char) : Option (Numeral × List Char) := do
  let (negative, text) := match text with
    | '-' :: rest => (true, rest)
    | rest => (false, rest)
  let (whole, text) ← match takeDigits text with
    | ([], _) => none
    | (0 :: _ :: _, _) => none
    | (whole, after) => some (whole, after)
  let (fraction, text) ← scanFraction text
  let (exponent, text) ← scanExponent text
  return (⟨negative, whole, fraction, exponent⟩, text)

/-- The token at the start of a text that does not start with a blank. -/
def scanToken : List Char → Option (Token × List Char)
  | '[' :: rest => some (.openArray, rest)
  | ']' :: rest => some (.closeArray, rest)
  | '{' :: rest => some (.openObject, rest)
  | '}' :: rest => some (.closeObject, rest)
  | ',' :: rest => some (.comma, rest)
  | ':' :: rest => some (.colon, rest)
  | 'n' :: 'u' :: 'l' :: 'l' :: rest => some (.null, rest)
  | 't' :: 'r' :: 'u' :: 'e' :: rest => some (.bool true, rest)
  | 'f' :: 'a' :: 'l' :: 's' :: 'e' :: rest => some (.bool false, rest)
  | '"' :: rest =>
    (Text.scan rest).map fun (pieces, after) =>
      (.text ((Text.join pieces).map String.ofList), after)
  | text => (scanNumeral text).map fun (numeral, after) => (.number numeral, after)

/-- The tokens of a text, each step using up at least one of `steps` characters. -/
def tokensWithin : (steps : Nat) → List Char → List Token
  | 0, _ => []
  | _, [] => []
  | steps + 1, c :: rest =>
    if isBlank c then tokensWithin steps rest
    else match scanToken (c :: rest) with
      | none => [.defect]
      | some (token, after) => token :: tokensWithin steps after

/-- The tokens of a text up to its end or its first defect. -/
def tokens (text : List Char) : List Token := tokensWithin text.length text

example : tokens "[1, true]".toList
    = [.openArray, .number ⟨false, [1], [], none⟩, .comma, .bool true, .closeArray] := by
  decide +kernel

example : tokens " 01".toList = [.defect] := by decide +kernel

end SchemaGate.Json
