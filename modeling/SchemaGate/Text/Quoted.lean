/-!
# Quoted text

Text between quotation marks, as documents hold it. Writing escapes the quotation
mark, the backslash and the control characters below U+0020, and nothing else.
Reading knows more escapes, among them `\u` with four hexadecimal digits, which
names a unit of sixteen bits. It goes in two steps: `scan` finds the closing mark
and splits the text into pieces, and `join` turns the pieces into characters,
pairing units that are two halves of one character. A half that stands alone is
well written but names no character.
-/

namespace SchemaGate.Text

/-- The lower-case hexadecimal digit of a number below sixteen. -/
def hexDigit (n : Nat) : Char := Nat.digitChar n

/-- The value of a hexadecimal digit of either case. -/
def hexValue? (c : Char) : Option Nat :=
  if '0' ≤ c ∧ c ≤ '9' then some (c.toNat - '0'.toNat)
  else if 'a' ≤ c ∧ c ≤ 'f' then some (c.toNat - 'a'.toNat + 10)
  else if 'A' ≤ c ∧ c ≤ 'F' then some (c.toNat - 'A'.toNat + 10)
  else none

/-- The unit that four hexadecimal digits name. -/
def unit? (a b c d : Char) : Option Nat := do
  let a ← hexValue? a
  let b ← hexValue? b
  let c ← hexValue? c
  let d ← hexValue? d
  return ((a * 16 + b) * 16 + c) * 16 + d

/-- A character as quoted text writes it. -/
def quoteChar (c : Char) : List Char :=
  if c = '"' then ['\\', '"']
  else if c = '\\' then ['\\', '\\']
  else if c = '\x08' then ['\\', 'b']
  else if c = '\t' then ['\\', 't']
  else if c = '\n' then ['\\', 'n']
  else if c = '\x0c' then ['\\', 'f']
  else if c = '\r' then ['\\', 'r']
  else if c.toNat < 32 then
    ['\\', 'u', '0', '0', hexDigit (c.toNat / 16), hexDigit (c.toNat % 16)]
  else [c]

/-- Text between quotation marks. -/
def quote (s : String) : List Char := '"' :: (s.toList.flatMap quoteChar ++ ['"'])

/-- A piece of quoted text: a character, or a unit of sixteen bits from a `\u` escape. -/
inductive Piece where
  /-- A character, written as itself or by a short escape. -/
  | char (c : Char)
  /-- A unit named by four hexadecimal digits. -/
  | unit (code : Nat)
  deriving DecidableEq, Repr

/-- The character a one-letter escape stands for. -/
def shortEscape? : Char → Option Char
  | '"' => some '"'
  | '\\' => some '\\'
  | '/' => some '/'
  | 'b' => some '\x08'
  | 'f' => some '\x0c'
  | 'n' => some '\n'
  | 'r' => some '\r'
  | 't' => some '\t'
  | _ => none

/-- Split text after an opening mark into the pieces before the closing mark and what
follows it. Control characters and unknown escapes are refused. -/
def scan : List Char → Option (List Piece × List Char)
  | [] => none
  | '"' :: rest => some ([], rest)
  | '\\' :: 'u' :: a :: b :: c :: d :: rest => do
    let code ← unit? a b c d
    let (pieces, after) ← scan rest
    return (.unit code :: pieces, after)
  | '\\' :: e :: rest => do
    let c ← shortEscape? e
    let (pieces, after) ← scan rest
    return (.char c :: pieces, after)
  | c :: rest =>
    if c = '\\' ∨ c.toNat < 32 then none
    else do
      let (pieces, after) ← scan rest
      return (.char c :: pieces, after)

/-- Whether a unit is the first half of a character beyond U+FFFF. -/
def isLeading (code : Nat) : Bool := 0xD800 ≤ code && code < 0xDC00

/-- Whether a unit is the second half of a character beyond U+FFFF. -/
def isTrailing (code : Nat) : Bool := 0xDC00 ≤ code && code < 0xE000

/-- The characters that pieces spell; none if half a character stands alone. -/
def join : List Piece → Option (List Char)
  | [] => some []
  | .char c :: rest => (join rest).map (c :: ·)
  | .unit code :: rest =>
    if isLeading code then
      match rest with
      | .unit next :: rest =>
        if isTrailing next then
          (join rest).map (Char.ofNat ((code - 0xD800) * 0x400 + (next - 0xDC00) + 0x10000) :: ·)
        else none
      | _ => none
    else if isTrailing code then none
    else (join rest).map (Char.ofNat code :: ·)

example : quote "a\"\n\x01é" = "\"a\\\"\\n\\u0001é\"".toList := by decide +kernel

example : (scan "a\\u00e9\\ud83d\\ude00\" b".toList).map (fun p => (join p.1, p.2))
    = some (some "aé😀".toList, " b".toList) := by decide +kernel

end SchemaGate.Text
