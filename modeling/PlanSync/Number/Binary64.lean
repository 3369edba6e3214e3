import PlanSync.Text.Decimal

/-!
# Double-precision numbers in exact arithmetic

A finite double is a sign and a magnitude: the place of its absolute value
among all non-negative doubles, counted from zero. Magnitudes are ordered like
the values they stand for, and the value is `m * 2 ^ q` for natural `m`.

Rounding, products and quotients are computed on fractions of natural numbers,
so every result is the double nearest to the exact one, with ties going to the
even magnitude.
-/

namespace PlanSync

/-- The magnitude at which doubles stop being finite. -/
def Binary64.bound : Nat := 2047 * Power.two 52

/-- A finite double. -/
structure Binary64 where
  negative : Bool
  magnitude : Nat
  finite : magnitude < Binary64.bound
  deriving DecidableEq

namespace Binary64

/-- A non-negative fraction; the denominator of every fraction made here is
positive. -/
structure Ratio where
  num : Nat
  den : Nat

/-- The nearest natural number, a half going to the even neighbour. -/
def Ratio.round (r : Ratio) : Nat :=
  let q := r.num / r.den
  let twice := 2 * (r.num % r.den)
  if twice < r.den then q
  else if r.den < twice then q + 1
  else if q % 2 = 0 then q else q + 1

/-- The fraction `m * 2 ^ q`. -/
def Ratio.ofScaled (m : Nat) (q : Int) : Ratio :=
  if 0 ≤ q then { num := m * Power.two q.toNat, den := 1 }
  else { num := m, den := Power.two (-q).toNat }

/-- A fraction divided by `2 ^ q`. -/
def Ratio.shift (r : Ratio) (q : Int) : Ratio :=
  if 0 ≤ q then ⟨r.num, r.den * Power.two q.toNat⟩
  else ⟨r.num * Power.two (-q).toNat, r.den⟩

def Ratio.mul (r s : Ratio) : Ratio := ⟨r.num * s.num, r.den * s.den⟩

def Ratio.div (r s : Ratio) : Ratio := ⟨r.num * s.den, r.den * s.num⟩

/-- The significand and the exponent of two of a magnitude. -/
def scaled (magnitude : Nat) : Nat × Int :=
  let e : Nat := magnitude / Power.two 52
  let f : Nat := magnitude % Power.two 52
  if e = 0 then (f, -1074) else (Power.two 52 + f, (e : Int) - 1075)

/-- The value of a magnitude. -/
def ratio (magnitude : Nat) : Ratio :=
  let (m, q) := scaled magnitude
  Ratio.ofScaled m q

/-- The magnitude nearest to a fraction. It may lie beyond the finite ones. -/
def nearest (r : Ratio) : Nat :=
  if r.num = 0 then 0
  else
    let guess : Int := (r.num.log2 : Int) - r.den.log2 - 52
    let below := (r.shift guess).num < Power.two 52 * (r.shift guess).den
    let q := if below then guess - 1 else guess
    let q := max q (-1074)
    (q + 1074).toNat * Power.two 52 + (r.shift q).round

/-- A magnitude with a sign, if it is finite. -/
def ofMagnitude? (negative : Bool) (magnitude : Nat) : Option Binary64 :=
  if h : magnitude < bound then some ⟨negative, magnitude, h⟩ else none

/-- The magnitude of a power of ten. -/
def powerOfTen (n : Nat) : Nat := nearest ⟨Power.ten n, 1⟩

/-- Divide a magnitude by a power of ten, at most `10 ^ 308` at a time. -/
def divPower (magnitude n : Nat) : Nat :=
  if n ≤ 308 then nearest ((ratio magnitude).div (ratio (powerOfTen n)))
  else if magnitude = 0 then 0
  else divPower (nearest ((ratio magnitude).div (ratio (powerOfTen 308)))) (n - 308)
  termination_by n

/-- The magnitude that reading `significand * 10 ^ exponent` gives: the
significand is rounded first and then scaled by a power of ten. `none` if the
result is not finite. -/
def ofDecimal? (negative : Bool) (significand : Nat) (exponent : Int) : Option Binary64 :=
  let m := nearest ⟨significand, 1⟩
  if 0 ≤ exponent then
    if exponent ≤ 308 then
      ofMagnitude? negative (nearest ((ratio m).mul (ratio (powerOfTen exponent.toNat))))
    else if m = 0 then ofMagnitude? negative 0
    else none
  else ofMagnitude? negative (divPower m (-exponent).toNat)

/-- Equality of values: the two zeros are one number. -/
def same (x y : Binary64) : Bool :=
  x.magnitude = y.magnitude && (x.negative = y.negative || x.magnitude = 0)

end Binary64

end PlanSync
