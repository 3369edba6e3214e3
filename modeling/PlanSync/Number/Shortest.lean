import PlanSync.Number.Binary64

/-!
# The shortest decimal that reads back

A double is written with the fewest significant digits that still single it
out among all doubles. For each number of digits there are two candidates, the
neighbours of the value on that decimal grid; the first grid with a candidate
in the rounding interval wins, and of two candidates the nearer one.
-/

namespace PlanSync.Binary64

/-- Significant digits of a positive number and the power of ten of the first
one. -/
structure Digits where
  digits : List Char
  exponent : Int
  deriving DecidableEq

/-- The fractions between which every number rounds to a magnitude, and
whether the two ends belong to them. -/
def interval (magnitude : Nat) : Ratio × Ratio × Bool :=
  let (m, q) := scaled magnitude
  let lower :=
    if m = Power.two 52 && q ≠ -1074 then Ratio.ofScaled (4 * m - 1) (q - 2)
    else Ratio.ofScaled (2 * m - 1) (q - 1)
  (lower, Ratio.ofScaled (2 * m + 1) (q - 1), m % 2 = 0)

def Ratio.lt (r s : Ratio) : Bool := r.num * s.den < s.num * r.den

def Ratio.le (r s : Ratio) : Bool := r.num * s.den ≤ s.num * r.den

/-- Whether a fraction rounds to a magnitude. -/
def roundsTo (magnitude : Nat) (r : Ratio) : Bool :=
  let (lower, upper, closed) := interval magnitude
  if closed then lower.le r && r.le upper else lower.lt r && r.lt upper

/-- The power of ten of the first digit: `10 ^ e ≤ r < 10 ^ (e + 1)`. The
search goes down at most `fuel` powers below one. -/
def leadingPower (r : Ratio) : Int :=
  if r.den ≤ r.num then (Nat.toDigits 10 (r.num / r.den)).length - 1
  else below 400 (r.num * 10) 1
where
  below : Nat → Nat → Nat → Int
    | 0, _, k => -k
    | fuel + 1, num, k => if r.den ≤ num then -k else below fuel (num * 10) (k + 1)

/-- The fraction `d * 10 ^ e`. -/
def Ratio.ofDecimal (d : Nat) (e : Int) : Ratio :=
  if 0 ≤ e then ⟨d * Power.ten e.toNat, 1⟩ else ⟨d, Power.ten (-e).toNat⟩

/-- The neighbour of a value on a decimal grid that rounds to it, if one does:
the nearer of the two, the even one of two equally near. -/
def onGrid? (magnitude : Nat) (unit : Int) : Option Nat :=
  let r := ratio magnitude
  let scaledUp :=
    if 0 ≤ unit then (⟨r.num, r.den * Power.ten unit.toNat⟩ : Ratio)
    else ⟨r.num * Power.ten (-unit).toNat, r.den⟩
  let below := scaledUp.num / scaledUp.den
  let nearer := scaledUp.round
  let other := if nearer = below then below + 1 else below
  if roundsTo magnitude (Ratio.ofDecimal nearer unit) then some nearer
  else if roundsTo magnitude (Ratio.ofDecimal other unit) then some other
  else none

/-- Try grids of `n`, `n + 1`, … digits. -/
def shortestFrom (magnitude : Nat) (leading : Int) : Nat → Nat → Nat × Int
  | 0, n => ((onGrid? magnitude (leading - n)).getD 0, leading - n)
  | fuel + 1, n =>
    match onGrid? magnitude (leading + 1 - n) with
    | some d => if d = 0 then shortestFrom magnitude leading fuel (n + 1) else (d, leading + 1 - n)
    | none => shortestFrom magnitude leading fuel (n + 1)

/-- Drop the zeros at the end of a list of digits. -/
def dropTrailingZeros (ds : List Char) : List Char :=
  (ds.reverse.dropWhile (· = '0')).reverse

/-- The shortest digits of a positive magnitude. -/
def shortest (magnitude : Nat) : Digits :=
  let (d, unit) := shortestFrom magnitude (leadingPower (ratio magnitude)) 17 1
  let ds := Nat.toDigits 10 d
  ⟨dropTrailingZeros ds, unit + ds.length - 1⟩

end PlanSync.Binary64
