import PlanSync.Text.Hidden

/-!
# Quoted text in messages

A name that is shown in a message stands between quotation marks, so that an
empty name or one with blanks at its ends can be seen. Quotation marks and
backslashes get a backslash, the usual controls their letter, and every other
hidden character its number in braces.
-/

namespace PlanSync.Text

/-- Lower-case hexadecimal numeral. -/
def hexadecimal (n : Nat) : List Char := Nat.toDigits 16 n

/-- One character as it stands between quotation marks. -/
def quotedChar (c : Char) : List Char :=
  if c = '"' then ['\\', '"']
  else if c = '\\' then ['\\', '\\']
  else if c = '\n' then ['\\', 'n']
  else if c = '\r' then ['\\', 'r']
  else if c = '\t' then ['\\', 't']
  else if c.toNat = 0 then ['\\', '0']
  else if isHidden c then ['\\', 'u', '\x7b'] ++ hexadecimal c.toNat ++ ['\x7d']
  else [c]

/-- A text between quotation marks. -/
def quoted (s : String) : String :=
  String.ofList ('"' :: s.toList.flatMap quotedChar ++ ['"'])

end PlanSync.Text
