/-!
# Decimal numerals

Natural numbers are written without leading zeros. Reading is bounded: a
numeral is read only if its value fits 64 bits, and it may begin with a plus
sign, which writing never produces.
-/

/-! ## Powers -/

namespace PlanSync.Power

/-- A power of two. -/
def two (n : Nat) : Nat := Nat.pow 2 n

/-- A power of ten. -/
def ten (n : Nat) : Nat := Nat.pow 10 n

end PlanSync.Power

/-! ## Numerals -/

namespace PlanSync.Text

/-- The decimal digits of a number, most significant first. -/
def decimalDigits (n : Nat) : List Char := Nat.toDigits 10 n

/-- The decimal numeral of a number. -/
def decimal (n : Nat) : String := String.ofList (decimalDigits n)

/-- The value of a decimal digit. -/
def digit? (c : Char) : Option Nat :=
  if c.isDigit then some (c.toNat - '0'.toNat) else none

/-- The value of a list of digits, continuing from a value already read. -/
def digitsValue? (acc : Nat) : List Char → Option Nat
  | [] => some acc
  | c :: cs =>
    match digit? c with
    | some d => digitsValue? (acc * 10 + d) cs
    | none => none

/-- The bound of a 64-bit word. -/
def wordBound : Nat := Power.two 64

/-- Read a 64-bit numeral: an optional plus sign, then at least one digit. -/
def readWord? (s : String) : Option Nat :=
  let digits :=
    match s.toList with
    | '+' :: cs => cs
    | cs => cs
  if digits.isEmpty then none
  else (digitsValue? 0 digits).filter (· < wordBound)

end PlanSync.Text
