import PlanSync.Json.Document
import PlanSync.Text.Decimal

/-!
# From text to document

The reader of JSON text. It never fails: where the text is broken the document
says so. Numbers are taken as the format's readers take them, an integer as
long as it fits 64 bits and a double otherwise, whose significand is cut after
the digits that fit 64 bits.
-/

namespace PlanSync.JsonText

/-! ## Blanks and words -/

/-- The four blank characters between tokens. -/
def isBlank (c : Char) : Bool := c = ' ' || c = '\n' || c = '\t' || c = '\r'

/-- The text from its first character that is not blank. -/
def skipBlanks (cs : List Char) : List Char := cs.dropWhile isBlank

/-- The rest of a word such as `null`. -/
def word (value : Document) : List Char → List Char → Document × List Char
  | [], cs => (value, cs)
  | _ :: _, [] => (.broken (.unnamed .truncated .truncated), [])
  | w :: ws, c :: cs => if w = c then word value ws cs else (.broken .noValue, [])

/-! ## Strings -/

/-- The value of a hexadecimal digit. -/
def hexValue? (c : Char) : Option Nat :=
  if '0' ≤ c ∧ c ≤ '9' then some (c.toNat - '0'.toNat)
  else if 'a' ≤ c ∧ c ≤ 'f' then some (c.toNat - 'a'.toNat + 10)
  else if 'A' ≤ c ∧ c ≤ 'F' then some (c.toNat - 'A'.toNat + 10)
  else none

/-- The value of four hexadecimal digits. -/
def hexValues? (a b c d : Char) : Option Nat := do
  let a ← hexValue? a
  let b ← hexValue? b
  let c ← hexValue? c
  let d ← hexValue? d
  return ((a * 16 + b) * 16 + c) * 16 + d

def isHighSurrogate (n : Nat) : Bool := 0xD800 ≤ n && n < 0xDC00

def isLowSurrogate (n : Nat) : Bool := 0xDC00 ≤ n && n < 0xE000

/-- The character of a surrogate pair. -/
def pairChar (high low : Nat) : Char :=
  Char.ofNat (0x10000 + (high - 0xD800) * 0x400 + (low - 0xDC00))

/-- The character of an escape of one letter. -/
def escapeChar? (c : Char) : Option Char :=
  if c = '"' || c = '\\' || c = '/' then some c
  else if c = 'b' then some (Char.ofNat 8)
  else if c = 'f' then some (Char.ofNat 12)
  else if c = 'n' then some '\n'
  else if c = 'r' then some '\r'
  else if c = 't' then some '\t'
  else none

/-- A string that was read up to its closing mark, or the place where it
breaks off. -/
inductive Scan where
  | closed (value : Option String) (rest : List Char)
  | broken (place : Break)

/-- Whether a text ends before four bytes. -/
def shorterThanFour (cs : List Char) : Bool :=
  (cs.take 4).foldl (fun n c => n + c.utf8Size) 0 < 4

/-- Whether a text ends inside what could be the second half of a surrogate
pair. -/
def endsInPair : List Char → Bool
  | [] => true
  | ['\\'] => true
  | '\\' :: 'u' :: cs => shorterThanFour cs
  | _ => false

/-- How a string that breaks off looks: a reader has already stopped at an
escape without a character. -/
def brokenString (bad : Bool) (f : Fault) : Scan :=
  let reading := if bad then .malformed else f
  .broken ⟨reading, f, .fault reading⟩

/-- The second half of a surrogate pair, if a text begins with one. -/
def lowHalf? : List Char → Option Nat
  | '\\' :: 'u' :: a :: b :: c :: d :: _ => (hexValues? a b c d).filter isLowSurrogate
  | _ => none

/-- Read a string after its opening mark. `acc` holds the characters so far in
reverse; `bad` says that an escape before gave no character. -/
def scanString (acc : List Char) (bad : Bool) : List Char → Scan
  | [] => brokenString bad .truncated
  | '"' :: cs => .closed (if bad then none else some (String.ofList acc.reverse)) cs
  | ['\\'] => brokenString bad .truncated
  | '\\' :: 'u' :: a :: b :: c :: d :: cs =>
    match hexValues? a b c d with
    | none => brokenString bad .malformed
    | some n =>
      if isHighSurrogate n then
        match lowHalf? cs with
        | some m => scanString (pairChar n m :: acc) bad (cs.drop 6)
        | none => scanString acc (bad || !endsInPair cs) cs
      else if isLowSurrogate n then scanString acc true cs
      else scanString (Char.ofNat n :: acc) bad cs
  | '\\' :: 'u' :: cs => brokenString bad (if shorterThanFour cs then .truncated else .malformed)
  | '\\' :: c :: cs =>
    match escapeChar? c with
    | some c => scanString (c :: acc) bad cs
    | none => brokenString bad .malformed
  | c :: cs =>
    if c.toNat < 0x20 then brokenString bad .malformed
    else scanString (c :: acc) bad cs
  termination_by cs => cs.length
  decreasing_by all_goals (simp only [List.length_cons, List.length_drop]; omega)

/-- A string value after its opening mark. -/
def stringValue (cs : List Char) : Document × List Char :=
  match scanString [] false cs with
  | .closed (some s) rest => (.string s, rest)
  | .closed none rest => (.unreadable, rest)
  | .broken b => (.broken b, [])

/-! ## Numbers -/

/-- The digits at the start of a text and what follows them. -/
def digitSpan (cs : List Char) : List Char × List Char :=
  (cs.takeWhile Char.isDigit, cs.dropWhile Char.isDigit)

/-- The value of a digit. -/
def digitValue (c : Char) : Nat := c.toNat - '0'.toNat

/-- Append digits to a significand as long as it fits 64 bits; the second
component counts the digits taken. -/
def absorb (significand : Nat) (taken : Nat) : List Char → Nat × Nat
  | [] => (significand, taken)
  | c :: cs =>
    let next := significand * 10 + digitValue c
    if next < Text.wordBound then absorb next (taken + 1) cs else (significand, taken)

/-- The parts of a number as they are written. -/
structure Literal where
  negative : Bool
  whole : List Char
  fraction : List Char
  /-- Whether the exponent is negative, and its digits. -/
  exponent : Option (Bool × List Char)

/-- The value of a decimal numeral. -/
def digitsValue (cs : List Char) : Nat := cs.foldl (fun n c => n * 10 + digitValue c) 0

/-- The number a literal stands for, unless it overflows. -/
def Literal.value? (l : Literal) : Option JsonNumber :=
  let (significand, taken) := absorb 0 0 l.whole
  let dropped := l.whole.length - taken
  if l.fraction.isEmpty && l.exponent.isNone && dropped = 0 then
    if !l.negative then some (.int significand)
    else if significand ≠ 0 && significand ≤ Power.two 63 then some (.int (-(significand : Int)))
    else (Binary64.ofDecimal? true significand 0).map .float
  else
    let (significand, used) := absorb significand 0 l.fraction
    let shift : Int := (dropped : Int) - used
    let exponent : Int :=
      match l.exponent with
      | none => shift
      | some (true, ds) => shift - digitsValue ds
      | some (false, ds) => shift + digitsValue ds
    (Binary64.ofDecimal? l.negative significand exponent).map .float

/-- The document of a literal. -/
def Literal.document (l : Literal) : Document :=
  match l.value? with
  | some n => .number n
  | none => .unreadable

/-- The break where a digit is missing: one who skips looks for a digit and
does not tell the end of the text from another character. -/
def missingDigit (rest : List Char) : Break :=
  .unnamed (if rest.isEmpty then .truncated else .malformed) .malformed

/-- Read an exponent, if there is one, and finish the number. -/
def exponentPart (l : Literal) (cs : List Char) : Document × List Char :=
  match cs with
  | c :: cs' =>
    if c = 'e' || c = 'E' then
      let (negative, cs') :=
        match cs' with
        | '+' :: r => (false, r)
        | '-' :: r => (true, r)
        | r => (false, r)
      let (ds, rest) := digitSpan cs'
      if ds.isEmpty then (.broken (missingDigit rest), [])
      else (Literal.document { l with exponent := some (negative, ds) }, rest)
    else (l.document, cs)
  | [] => (l.document, [])

/-- Read a number after its sign. -/
def numberValue (negative : Bool) (cs : List Char) : Document × List Char :=
  let (whole, rest) := digitSpan cs
  if whole.isEmpty then (.broken (missingDigit rest), [])
  else if whole.head? = some '0' && whole.length ≠ 1 then (.broken .noValue, [])
  else
    match rest with
    | '.' :: rest =>
      let (fraction, rest) := digitSpan rest
      if fraction.isEmpty then (.broken (missingDigit rest), [])
      else exponentPart ⟨negative, whole, fraction, none⟩ rest
    | rest => exponentPart ⟨negative, whole, [], none⟩ rest

/-! ## Values -/

/-- How something else than a string looks in the place of a key, to a reader
who wants one of a few names. -/
def inPlaceOfKey : List Char → ReadError
  | 'n' :: cs => (word .null ['u', 'l', 'l'] cs).1.wrongShape
  | 't' :: cs => (word (.bool true) ['r', 'u', 'e'] cs).1.wrongShape
  | 'f' :: cs => (word (.bool false) ['a', 'l', 's', 'e'] cs).1.wrongShape
  | '-' :: cs => (numberValue true cs).1.wrongShape
  | '[' :: _ | '\x7b' :: _ => .mismatch
  | c :: cs =>
    if c.isDigit then (numberValue false (c :: cs)).1.wrongShape else .fault .malformed
  | [] => .fault .truncated

/-- The number of nested containers that cannot be read any more. -/
def depthLimit : Nat := 128

/-- Mark a container that is nested too deep. -/
def limitDepth (level : Nat) (d : Document) : Document :=
  if depthLimit ≤ level then .tooDeep d else d

mutual

/-- Read a value that stands inside `depth` containers. Every second call
takes a character, so fuel of twice the length of the text is enough. -/
def readValue : Nat → Nat → List Char → Document × List Char
  | 0, _, _ => (.broken (.all .truncated), [])
  | fuel + 1, depth, cs =>
    match skipBlanks cs with
    | [] => (.broken (.all .truncated), [])
    | 'n' :: cs => word .null ['u', 'l', 'l'] cs
    | 't' :: cs => word (.bool true) ['r', 'u', 'e'] cs
    | 'f' :: cs => word (.bool false) ['a', 'l', 's', 'e'] cs
    | '"' :: cs => stringValue cs
    | '-' :: cs => numberValue true cs
    | '[' :: cs =>
      let (items, close, rest) := readItems fuel (depth + 1) true cs
      (limitDepth (depth + 1) (.array items close), rest)
    | '\x7b' :: cs =>
      let (members, close, rest) := readMembers fuel (depth + 1) true cs
      (limitDepth (depth + 1) (.object members close), rest)
    | c :: cs =>
      if c.isDigit then numberValue false (c :: cs)
      else (.broken .noValue, [])

/-- Read the items of an array up to its end. -/
def readItems : Nat → Nat → Bool → List Char → List Document × Option Break × List Char
  | 0, _, _, _ => ([], some (.all .truncated), [])
  | fuel + 1, depth, first, cs =>
    match skipBlanks cs with
    | [] => ([], some (.all .truncated), [])
    | ']' :: cs => ([], none, cs)
    | c :: cs =>
      let start? :=
        if first then some (c :: cs)
        else if c = ',' && (skipBlanks cs).head? ≠ some ']' then some cs
        else none
      match start? with
      | none => ([], some (.all .malformed), [])
      | some cs =>
        let (x, rest) := readValue fuel depth cs
        let (xs, close, rest) := readItems fuel depth false rest
        (x :: xs, close, rest)

/-- Read the members of an object up to its end. -/
def readMembers :
    Nat → Nat → Bool → List Char → List (Option String × Document) × Option Break × List Char
  | 0, _, _, _ => ([], some (.all .truncated), [])
  | fuel + 1, depth, first, cs =>
    match skipBlanks cs with
    | [] => ([], some (.all .truncated), [])
    | '\x7d' :: cs => ([], none, cs)
    | c :: cs =>
      let start? := if first then some (c :: cs) else if c = ',' then some (skipBlanks cs) else none
      match start? with
      | some ('"' :: cs) =>
        match scanString [] false cs with
        | .broken b => ([], some (if first then b else .unnamed b.reading b.skipping), [])
        | .closed k rest =>
          let (x, rest) :=
            match skipBlanks rest with
            | ':' :: rest => readValue fuel depth rest
            | [] => (.broken (.all .truncated), [])
            | _ => (.broken (.all .malformed), [])
          let (xs, close, rest) := readMembers fuel depth false rest
          ((k, x) :: xs, close, rest)
      | some [] => ([], some (.unnamed .truncated .truncated), [])
      | _ =>
        let naming := if first then inPlaceOfKey (c :: cs) else .notAName
        ([], some ⟨.malformed, .malformed, naming⟩, [])

end

/-- Fuel that suffices for a text. -/
def fuelFor (cs : List Char) : Nat := 2 * cs.length + 2

end PlanSync.JsonText

namespace PlanSync

/-- A text as a document, and whether anything but blanks follows its value. -/
def Document.ofText (s : String) : Document × Bool :=
  let cs := s.toList
  let (d, rest) := JsonText.readValue (JsonText.fuelFor cs) 0 cs
  (d, !(JsonText.skipBlanks rest).isEmpty)

end PlanSync
