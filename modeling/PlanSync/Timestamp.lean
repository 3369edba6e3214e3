import PlanSync.Text.Decimal

/-!
# Instants

An instant is kept as its calendar fields in universal time, with nanoseconds
and with room for a leap second. It is read from the RFC 3339 form and its
relaxations: numerals may have fewer digits than usual, white space may stand
before a numeral and around the marks, the date ends in `T`, `t` or a space,
and the zone is `Z`, `UTC` or an offset in hours and minutes. It is written in
one form only, with `Z` and as few groups of three fraction digits as show the
nanoseconds.
-/

namespace PlanSync

/-! ## White space -/

namespace Text

/-- The code points of white space: the twenty-five with the property White_Space. -/
def whiteSpace : List Nat :=
  [0x9, 0xa, 0xb, 0xc, 0xd, 0x20, 0x85, 0xa0, 0x1680, 0x2000, 0x2001, 0x2002, 0x2003, 0x2004,
    0x2005, 0x2006, 0x2007, 0x2008, 0x2009, 0x200a, 0x2028, 0x2029, 0x202f, 0x205f, 0x3000]

/-- Whether a character is white space. -/
def isWhiteSpace (c : Char) : Bool := whiteSpace.contains c.toNat

/-- A text from its first character that is not white space. -/
def skipWhiteSpace (cs : List Char) : List Char := cs.dropWhile isWhiteSpace

end Text

/-! ## Instants -/

/-- A point in time, in universal time. -/
structure Timestamp where
  year : Int
  month : Nat
  day : Nat
  hour : Nat
  minute : Nat
  /-- Up to 60, which is a leap second. -/
  second : Nat
  nanosecond : Nat
  deriving DecidableEq

namespace Timestamp

/-! ## The calendar -/

/-- Whether a year has a 29 February. -/
def isLeapYear (y : Int) : Bool := y % 4 = 0 && (y % 100 ≠ 0 || y % 400 = 0)

/-- The number of days of a month. -/
def daysInMonth (y : Int) (m : Nat) : Nat :=
  if m = 2 then if isLeapYear y then 29 else 28
  else if m = 4 || m = 6 || m = 9 || m = 11 then 30
  else 31

/-- The day after. -/
def nextDay (y : Int) (m d : Nat) : Int × Nat × Nat :=
  if d < daysInMonth y m then (y, m, d + 1)
  else if m < 12 then (y, m + 1, 1)
  else (y + 1, 1, 1)

/-- The day before. -/
def previousDay (y : Int) (m d : Nat) : Int × Nat × Nat :=
  if 1 < d then (y, m, d - 1)
  else if 1 < m then (y, m - 1, daysInMonth y (m - 1))
  else (y - 1, 12, 31)

/-- The years a date may have. -/
def yearInRange (y : Int) : Bool := -262143 ≤ y && y ≤ 262142

/-- Fields in local time, less the offset of the zone in minutes, which is
below a day either way. -/
def toUniversal? (t : Timestamp) (offset : Int) : Option Timestamp :=
  let minutes : Int := (t.hour * 60 + t.minute : Nat) - offset
  let (y, m, d) :=
    if minutes < 0 then previousDay t.year t.month t.day
    else if minutes < 1440 then (t.year, t.month, t.day)
    else nextDay t.year t.month t.day
  let ofDay := (minutes % 1440).toNat
  if yearInRange y then
    some { t with year := y, month := m, day := d, hour := ofDay / 60, minute := ofDay % 60 }
  else none

/-- The date so many days after the first of January 1970. -/
def dateOfDay : Nat → Int × Nat × Nat
  | 0 => (1970, 1, 1)
  | n + 1 =>
    let (y, m, d) := dateOfDay n
    nextDay y m d

/-- The instant so many nanoseconds after the beginning of 1970, with no leap
seconds counted. -/
def ofEpoch (nanoseconds : Nat) : Timestamp :=
  let seconds := nanoseconds / 1000000000
  let ofDay := seconds % 86400
  let (year, month, day) := dateOfDay (seconds / 86400)
  { year, month, day, hour := ofDay / 3600, minute := ofDay % 3600 / 60, second := ofDay % 60,
    nanosecond := nanoseconds % 1000000000 }

/-! ## Writing -/

/-- A numeral with zeros in front up to a width. -/
def padded (width n : Nat) : List Char :=
  let ds := Text.decimalDigits n
  List.replicate (width - ds.length) '0' ++ ds

/-- The year: four digits, or a sign and at least four. -/
def yearChars (y : Int) : List Char :=
  if 0 ≤ y ∧ y ≤ 9999 then padded 4 y.toNat
  else (if y < 0 then '-' else '+') :: padded 4 y.natAbs

/-- The fraction of a second: none, or three, six or nine digits. -/
def fractionChars (nano : Nat) : List Char :=
  if nano = 0 then []
  else if nano % 1000000 = 0 then '.' :: padded 3 (nano / 1000000)
  else if nano % 1000 = 0 then '.' :: padded 6 (nano / 1000)
  else '.' :: padded 9 nano

/-- The written form. -/
def chars (t : Timestamp) : List Char :=
  yearChars t.year ++ '-' :: padded 2 t.month ++ '-' :: padded 2 t.day
    ++ 'T' :: padded 2 t.hour ++ ':' :: padded 2 t.minute ++ ':' :: padded 2 t.second
    ++ fractionChars t.nanosecond ++ ['Z']

/-- The written form as a text. -/
def text (t : Timestamp) : String := String.ofList t.chars

/-! ## Reading -/

/-- A numeral of at least one and at most `width` digits. -/
def numeral? (width : Nat) (cs : List Char) : Option (Nat × List Char) :=
  let ds := (cs.take width).takeWhile Char.isDigit
  if ds.isEmpty then none
  else (Text.digitsValue? 0 ds).map fun n => (n, cs.drop ds.length)

/-- A numeral in a range, with white space before it. -/
def field? (width low high : Nat) (cs : List Char) : Option (Nat × List Char) := do
  let (n, rest) ← numeral? width (Text.skipWhiteSpace cs)
  if low ≤ n ∧ n ≤ high then some (n, rest) else none

/-- A mark, with white space before it. -/
def mark? (c : Char) (cs : List Char) : Option (List Char) :=
  match Text.skipWhiteSpace cs with
  | [] => none
  | d :: rest => if c = d then some rest else none

/-- A year: four digits, or a sign and any number of them. -/
def year? (cs : List Char) : Option (Int × List Char) :=
  match Text.skipWhiteSpace cs with
  | '-' :: cs => (numeral? cs.length cs).map fun r => (-(r.1 : Int), r.2)
  | '+' :: cs => (numeral? cs.length cs).map fun r => ((r.1 : Int), r.2)
  | cs => (numeral? 4 cs).map fun r => ((r.1 : Int), r.2)

/-- A fraction of a second in nanoseconds; digits after the ninth are dropped. -/
def fraction? (cs : List Char) : Option (Nat × List Char) :=
  match cs with
  | '.' :: cs => do
    let (n, rest) ← numeral? 9 cs
    let taken := cs.length - rest.length
    some (n * Power.ten (9 - taken), rest.dropWhile Char.isDigit)
  | cs => some (0, cs)

/-- Two decimal digits. -/
def twoDigits? (cs : List Char) : Option (Nat × List Char) :=
  match cs with
  | a :: b :: rest =>
    if a.isDigit && b.isDigit then (Text.digitsValue? 0 [a, b]).map fun n => (n, rest) else none
  | _ => none

/-- An offset of hours and minutes, in minutes. -/
def offset? (negative : Bool) (cs : List Char) : Option (Int × List Char) := do
  let (hours, rest) ← twoDigits? cs
  let (minutes, rest) ← twoDigits? (rest.dropWhile fun c => c = ':' || Text.isWhiteSpace c)
  if minutes < 60 then
    let total : Int := (hours * 60 + minutes : Nat)
    some (if negative then -total else total, rest)
  else none

/-- A zone: its offset in minutes. -/
def zone? (cs : List Char) : Option (Int × List Char) :=
  match cs with
  | 'Z' :: rest | 'z' :: rest => some (0, rest)
  | '+' :: rest => offset? false rest
  | '-' :: rest | '\u2212' :: rest => offset? true rest
  | a :: b :: c :: rest =>
    if [a, b, c].map Char.toLower = ['u', 't', 'c'] then some (0, rest) else none
  | _ => none

/-- Read an instant. -/
def ofChars? (cs : List Char) : Option Timestamp := do
  let (year, cs) ← year? cs
  let cs ← mark? '-' cs
  let (month, cs) ← field? 2 1 12 cs
  let cs ← mark? '-' cs
  let (day, cs) ← field? 2 1 31 cs
  let cs ←
    match cs with
    | 'T' :: cs | 't' :: cs | ' ' :: cs => some cs
    | _ => none
  let (hour, cs) ← field? 2 0 23 cs
  let cs ← mark? ':' cs
  let (minute, cs) ← field? 2 0 59 cs
  let cs ← mark? ':' cs
  let (second, cs) ← field? 2 0 60 cs
  let (nano, cs) ← fraction? cs
  let (offset, cs) ← zone? (Text.skipWhiteSpace cs)
  if yearInRange year && day ≤ daysInMonth year month && offset.natAbs < 1440
      && (Text.skipWhiteSpace cs).isEmpty then
    toUniversal? ⟨year, month, day, hour, minute, second, nano⟩ offset
  else none

/-- Read an instant. -/
def ofText? (s : String) : Option Timestamp := ofChars? s.toList

end Timestamp

end PlanSync
