import SchemaGate.Text.Invisible

/-!
# Text made visible

Messages quote text so that every character can be seen: the mark, the backslash
and common controls have short escapes, any other character that does not show is
named by its code point in braces, and the rest stand as themselves.
-/

namespace SchemaGate.Text

/-- A character as a message shows it. -/
def visibleChar (c : Char) : List Char :=
  if c = '"' then ['\\', '"']
  else if c = '\\' then ['\\', '\\']
  else if c = '\t' then ['\\', 't']
  else if c = '\n' then ['\\', 'n']
  else if c = '\r' then ['\\', 'r']
  else if c = '\x00' then ['\\', '0']
  else if isInvisible c then '\\' :: 'u' :: '\x7b' :: (Nat.toDigits 16 c.toNat ++ ['\x7d'])
  else [c]

/-- Text between quotation marks, every character of it visible. -/
def visible (s : String) : String :=
  String.ofList ('"' :: (s.toList.flatMap visibleChar ++ ['"']))

example : visibleChar '\x01' = ['\\', 'u', '\x7b', '1', '\x7d'] := by decide +kernel

end SchemaGate.Text
