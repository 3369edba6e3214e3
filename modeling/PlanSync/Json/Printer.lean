import PlanSync.Json.Basic
import PlanSync.Number.Shortest

/-!
# Writing JSON

Two forms: compact, and indented by two spaces a level with one item a line.
Strings escape quotation marks, backslashes and controls; every other
character stands for itself. A double is written plainly while its first digit
lies between the fifth place after the point and the sixteenth before it, and
with an exponent outside that range.
-/

namespace PlanSync

namespace Json

/-! ## Strings -/

/-- Lower-case hexadecimal digit. -/
def hexDigit (n : Nat) : Char := Nat.digitChar n

/-- One character between quotation marks. -/
def escapeChar (c : Char) : List Char :=
  if c = '"' then ['\\', '"']
  else if c = '\\' then ['\\', '\\']
  else if c.toNat < 0x20 then
    if c.toNat = 8 then ['\\', 'b']
    else if c.toNat = 9 then ['\\', 't']
    else if c.toNat = 10 then ['\\', 'n']
    else if c.toNat = 12 then ['\\', 'f']
    else if c.toNat = 13 then ['\\', 'r']
    else ['\\', 'u', '0', '0', hexDigit (c.toNat / 16), hexDigit (c.toNat % 16)]
  else [c]

/-- A string with its quotation marks. -/
def stringChars (s : String) : List Char := '"' :: s.toList.flatMap escapeChar ++ ['"']

/-! ## Numbers -/

/-- How doubles are laid out: the powers of ten of the first digit that are
written plainly. -/
structure FloatLayout where
  lowest : Int
  highest : Int

/-- Plain from `0.00001` up to sixteen places before the point. -/
def floatLayout : FloatLayout := ⟨-5, 15⟩

/-- A positive double from its digits. -/
def FloatLayout.chars (l : FloatLayout) (d : Binary64.Digits) : List Char :=
  let n := d.digits.length
  if d.exponent < l.lowest || l.highest < d.exponent then
    let mantissa :=
      match d.digits with
      | [] => []
      | [c] => [c]
      | c :: cs => c :: '.' :: cs
    let sign := if d.exponent < 0 then '-' else '+'
    mantissa ++ 'e' :: sign :: Nat.toDigits 10 d.exponent.natAbs
  else if d.exponent < 0 then
    '0' :: '.' :: List.replicate (d.exponent.natAbs - 1) '0' ++ d.digits
  else
    let whole := d.exponent.toNat + 1
    if n ≤ whole then d.digits ++ List.replicate (whole - n) '0' ++ ['.', '0']
    else d.digits.take whole ++ '.' :: d.digits.drop whole

/-- A double, always with a point or an exponent. -/
def floatChars (x : Binary64) : List Char :=
  let digits :=
    if x.magnitude = 0 then ['0', '.', '0'] else floatLayout.chars (Binary64.shortest x.magnitude)
  if x.negative then '-' :: digits else digits

/-- An integer. -/
def intChars (i : Int) : List Char :=
  if i < 0 then '-' :: Nat.toDigits 10 i.natAbs else Nat.toDigits 10 i.natAbs

def numberChars : JsonNumber → List Char
  | .int i => intChars i
  | .float x => floatChars x

def boolChars : Bool → List Char
  | true => ['t', 'r', 'u', 'e']
  | false => ['f', 'a', 'l', 's', 'e']

/-! ## The compact form -/

mutual

/-- The compact form of a value. -/
def compactChars : Json → List Char
  | null => ['n', 'u', 'l', 'l']
  | bool b => boolChars b
  | number n => numberChars n
  | string s => stringChars s
  | array [] => ['[', ']']
  | array (x :: xs) => '[' :: compactChars x ++ compactItems xs
  | object [] => ['\x7b', '\x7d']
  | object ((k, x) :: xs) =>
    '\x7b' :: stringChars k ++ ':' :: compactChars x ++ compactMembers xs

def compactItems : List Json → List Char
  | [] => [']']
  | x :: xs => ',' :: compactChars x ++ compactItems xs

def compactMembers : List (String × Json) → List Char
  | [] => ['\x7d']
  | (k, x) :: xs => ',' :: stringChars k ++ ':' :: compactChars x ++ compactMembers xs

end

/-- The compact text of a value. -/
def compact (j : Json) : String := String.ofList j.compactChars

/-! ## The indented form -/

/-- A line break followed by two spaces a level. -/
def lineStart (level : Nat) : List Char := '\n' :: List.replicate (2 * level) ' '

mutual

/-- The indented form of a value that stands at a level. -/
def indentedChars (level : Nat) : Json → List Char
  | null => ['n', 'u', 'l', 'l']
  | bool b => boolChars b
  | number n => numberChars n
  | string s => stringChars s
  | array [] => ['[', ']']
  | array (x :: xs) =>
    '[' :: lineStart (level + 1) ++ indentedChars (level + 1) x ++ indentedItems level xs
  | object [] => ['\x7b', '\x7d']
  | object ((k, x) :: xs) =>
    '\x7b' :: lineStart (level + 1) ++ stringChars k ++ ':' :: ' ' :: indentedChars (level + 1) x
      ++ indentedMembers level xs

def indentedItems (level : Nat) : List Json → List Char
  | [] => lineStart level ++ [']']
  | x :: xs =>
    ',' :: lineStart (level + 1) ++ indentedChars (level + 1) x ++ indentedItems level xs

def indentedMembers (level : Nat) : List (String × Json) → List Char
  | [] => lineStart level ++ ['\x7d']
  | (k, x) :: xs =>
    ',' :: lineStart (level + 1) ++ stringChars k ++ ':' :: ' ' :: indentedChars (level + 1) x
      ++ indentedMembers level xs

end

/-- The indented text of a value. -/
def pretty (j : Json) : String := String.ofList (j.indentedChars 0)

end Json

end PlanSync
