import PlanSync.Text.Decimal
import PlanSync.Toml.Basic

/-!
# Single TOML values

Keys, strings, numbers, dates and times as they are written. Each reader takes
a text apart into what it reads and the rest.
-/

namespace PlanSync.TomlText

/-- A reader of characters: a value and the rest of the text, unless the text
does not begin as it must. -/
abbrev Reader (α : Type) := List Char → Option (α × List Char)

/-! ## Characters -/

/-- Spaces and tabs. -/
def isBlank (c : Char) : Bool := c = ' ' || c = '\t'

def skipBlanks (cs : List Char) : List Char := cs.dropWhile isBlank

/-- The rest after a line break. -/
def lineBreak? : List Char → Option (List Char)
  | '\n' :: cs => some cs
  | '\r' :: '\n' :: cs => some cs
  | _ => none

/-- A character that may stand in a comment or on a line of a string. -/
def isPrintable (c : Char) : Bool := c = '\t' || (0x20 ≤ c.toNat && c.toNat ≠ 0x7f)

/-- A character that may stand in a bare key. -/
def isBareKeyChar (c : Char) : Bool := c.isAlphanum || c = '_' || c = '-'

/-! ## Strings -/

/-- The value of a hexadecimal digit. -/
def hexDigit? (c : Char) : Option Nat :=
  if c.isDigit then some (c.toNat - '0'.toNat)
  else if 'a' ≤ c ∧ c ≤ 'f' then some (c.toNat - 'a'.toNat + 10)
  else if 'A' ≤ c ∧ c ≤ 'F' then some (c.toNat - 'A'.toNat + 10)
  else none

/-- The character of a code point. -/
def codePoint? (n : Nat) : Option Char := if n.isValidChar then some (Char.ofNat n) else none

/-- A character by `count` hexadecimal digits. -/
def hexChar (count : Nat) : Reader Char := fun cs =>
  if cs.length < count then none
  else do
    let digits ← (cs.take count).mapM hexDigit?
    let c ← codePoint? (digits.foldl (fun n d => n * 16 + d) 0)
    return (c, cs.drop count)

/-- What an escape stands for, after its backslash. -/
def escape : Reader Char
  | 'b' :: cs => some (Char.ofNat 8, cs)
  | 't' :: cs => some ('\t', cs)
  | 'n' :: cs => some ('\n', cs)
  | 'f' :: cs => some (Char.ofNat 12, cs)
  | 'r' :: cs => some ('\r', cs)
  | 'e' :: cs => some (Char.ofNat 27, cs)
  | '"' :: cs => some ('"', cs)
  | '\\' :: cs => some ('\\', cs)
  | 'x' :: cs => hexChar 2 cs
  | 'u' :: cs => hexChar 4 cs
  | 'U' :: cs => hexChar 8 cs
  | _ => none

/-- The rest after blanks and line breaks. -/
def skipLines : List Char → List Char
  | '\n' :: cs => skipLines cs
  | '\r' :: '\n' :: cs => skipLines cs
  | c :: cs => if isBlank c then skipLines cs else c :: cs
  | [] => []

/-- The rest after a backslash that ends a line: blanks and line breaks up to
the next character are passed over. -/
def continuation? (cs : List Char) : Option (List Char) :=
  (lineBreak? (skipBlanks cs)).map skipLines

/-- One piece of a string in double quotes: what it stands for, and the rest.
Strings of several lines may hold line breaks and quotes. -/
def basicPiece (multiline : Bool) : Reader (List Char)
  | '\\' :: cs =>
    match if multiline then continuation? cs else none with
    | some rest => some ([], rest)
    | none => (escape cs).map fun r => ([r.1], r.2)
  | '\n' :: cs => if multiline then some (['\n'], cs) else none
  | '\r' :: '\n' :: cs => if multiline then some (['\r', '\n'], cs) else none
  | c :: cs => if isPrintable c then some ([c], cs) else none
  | [] => none

/-- One piece of a string in single quotes. -/
def literalPiece (multiline : Bool) : Reader (List Char)
  | '\n' :: cs => if multiline then some (['\n'], cs) else none
  | '\r' :: '\n' :: cs => if multiline then some (['\r', '\n'], cs) else none
  | c :: cs => if isPrintable c then some ([c], cs) else none
  | [] => none

/-- The rest of a string on one line, up to its quote. -/
def lineString (quote : Char) (piece : Reader (List Char)) : Nat → Reader (List Char)
  | 0, _ => none
  | n + 1, cs =>
    match cs with
    | [] => none
    | c :: rest =>
      if c = quote then some ([], rest)
      else do
        let (p, rest) ← piece cs
        let (ps, rest) ← lineString quote piece n rest
        return (p ++ ps, rest)

/-- The rest of a string of several lines: three quotes end it, and up to two
more before them belong to it. -/
def blockString (quote : Char) (piece : Reader (List Char)) : Nat → Reader (List Char)
  | 0, _ => none
  | n + 1, cs =>
    let quotes := (cs.take 5).takeWhile (· = quote)
    if 3 ≤ quotes.length then some (quotes.drop 3, cs.drop quotes.length)
    else if 0 < quotes.length then do
      let (ps, rest) ← blockString quote piece n (cs.drop quotes.length)
      return (quotes ++ ps, rest)
    else do
      let (p, rest) ← piece cs
      let (ps, rest) ← blockString quote piece n rest
      return (p ++ ps, rest)

/-- A line break right after the opening quotes does not count. -/
def afterOpening (cs : List Char) : List Char := (lineBreak? cs).getD cs

/-- A string in any of the four forms. -/
def string (multiline : Bool) : Reader String := fun cs =>
  let n := cs.length + 1
  let result : Option (List Char × List Char) :=
    match cs with
    | '"' :: '"' :: '"' :: rest =>
      if multiline then blockString '"' (basicPiece true) n (afterOpening rest)
      else none
    | '\'' :: '\'' :: '\'' :: rest =>
      if multiline then blockString '\'' (literalPiece true) n (afterOpening rest)
      else none
    | '"' :: rest => lineString '"' (basicPiece false) n rest
    | '\'' :: rest => lineString '\'' (literalPiece false) n rest
    | _ => none
  result.map fun r => (String.ofList r.1, r.2)

/-! ## Keys -/

/-- One part of a key: bare, or a string on one line. -/
def simpleKey : Reader String := fun cs =>
  match cs with
  | '"' :: _ | '\'' :: _ => string false cs
  | _ =>
    let word := cs.takeWhile isBareKeyChar
    if word.isEmpty then none else some (String.ofList word, cs.dropWhile isBareKeyChar)

/-- How deep keys and values may go: the number of parts of a key, and of
arrays and tables in braces around a value. -/
def depthLimit : Nat := 80

/-- Up to `n` parts of a key, the last one apart. Blanks may stand around the
dots; those after the key are passed over. -/
def keyParts : Nat → Reader (List String × String)
  | 0, _ => none
  | n + 1, cs => do
    let (first, rest) ← simpleKey cs
    match skipBlanks rest with
    | '.' :: rest => do
      let ((path, last), rest) ← keyParts n (skipBlanks rest)
      return ((first :: path, last), rest)
    | rest => return (([], first), rest)

/-- The parts of a key, the last one apart. -/
def key : Reader (List String × String) := keyParts depthLimit

/-! ## Numbers -/

/-- The digits of a numeral in which single underscores may stand between
digits. -/
def plainDigits? (isDigit : Char → Bool) : List Char → Option (List Char)
  | [] => none
  | [c] => if isDigit c then some [c] else none
  | c :: '_' :: cs => if isDigit c then (plainDigits? isDigit cs).map (c :: ·) else none
  | c :: cs => if isDigit c then (plainDigits? isDigit cs).map (c :: ·) else none

/-- The value of digits to a base. -/
def valueOf (base : Nat) (cs : List Char) : Nat :=
  cs.foldl (fun n c => n * base + (hexDigit? c).getD 0) 0

/-- A numeral without sign after a mark of its base. -/
def basedInteger? (base : Nat) (cs : List Char) : Option Int :=
  (plainDigits? (fun c => (hexDigit? c).any (· < base)) cs).map fun ds => (valueOf base ds : Int)

/-- The sign of a number, true for a minus, and the rest. -/
def sign : List Char → Bool × List Char
  | '-' :: cs => (true, cs)
  | '+' :: cs => (false, cs)
  | cs => (false, cs)

/-- Decimal digits without a zero in front. -/
def wholeDigits? (cs : List Char) : Option (List Char) :=
  (plainDigits? Char.isDigit cs).filter fun ds => ds.length = 1 || ds.head? ≠ some '0'

/-- The number an integer stands for. -/
def integer? (cs : List Char) : Option Int :=
  match cs with
  | '0' :: 'x' :: rest => basedInteger? 16 rest
  | '0' :: 'o' :: rest => basedInteger? 8 rest
  | '0' :: 'b' :: rest => basedInteger? 2 rest
  | cs =>
    let (negative, rest) := sign cs
    (wholeDigits? rest).map fun ds =>
      if negative then -(valueOf 10 ds : Int) else (valueOf 10 ds : Int)

/-- The value of an integer. Integers have at most 128 bits. -/
def integerValue (i : Int) : Toml :=
  if -(Power.two 127 : Int) ≤ i && i < Power.two 128 then .integer i else .outOfRange

/-- The exponent after its mark. -/
def exponent? (cs : List Char) : Option Int :=
  let (negative, rest) := sign cs
  (plainDigits? Char.isDigit rest).map fun ds =>
    if negative then -(valueOf 10 ds : Int) else (valueOf 10 ds : Int)

/-- A finite double: digits, then a fraction or an exponent or both. -/
def finite? (negative : Bool) (cs : List Char) : Option Toml := do
  let isMark (c : Char) : Bool := c = 'e' || c = 'E'
  let mantissa := cs.takeWhile fun c => !isMark c
  let exponent ←
    match cs.dropWhile fun c => !isMark c with
    | [] => if mantissa.contains '.' then some 0 else none
    | _ :: rest => exponent? rest
  let whole ← wholeDigits? (mantissa.takeWhile (· ≠ '.'))
  let fraction ←
    match mantissa.dropWhile (· ≠ '.') with
    | [] => some []
    | _ :: rest => plainDigits? Char.isDigit rest
  match Binary64.ofDecimal? negative (valueOf 10 (whole ++ fraction))
      (exponent - fraction.length) with
  | some x => return .float (some x)
  | none => return .outOfRange

/-- A float: a finite double, `inf` or `nan`. -/
def float? (cs : List Char) : Option Toml :=
  let (negative, rest) := sign cs
  if rest = ['i', 'n', 'f'] || rest = ['n', 'a', 'n'] then some (.float none)
  else finite? negative rest

/-! ## Dates and times -/

/-- A numeral of a fixed number of digits within bounds. -/
def fixedDigits (count low high : Nat) : Reader Nat := fun cs =>
  let ds := (cs.take count).takeWhile Char.isDigit
  let n := valueOf 10 ds
  if ds.length = count && low ≤ n && n ≤ high then some (n, cs.drop count) else none

/-- The rest after a mark. -/
def mark? (c : Char) : List Char → Option (List Char)
  | d :: cs => if c = d then some cs else none
  | [] => none

/-- The number of days of a month. -/
def daysIn (year month : Nat) : Nat :=
  if month = 2 then
    if year % 4 = 0 && (year % 100 ≠ 0 || year % 400 = 0) then 29 else 28
  else if month = 4 || month = 6 || month = 9 || month = 11 then 30
  else 31

/-- The rest after a date. -/
def date? (cs : List Char) : Option (List Char) := do
  let (year, cs) ← fixedDigits 4 0 9999 cs
  let cs ← mark? '-' cs
  let (month, cs) ← fixedDigits 2 1 12 cs
  let cs ← mark? '-' cs
  let (_, cs) ← fixedDigits 2 1 (daysIn year month) cs
  return cs

/-- The rest after the fraction of a second, if there is one. -/
def secondFraction? : List Char → Option (List Char)
  | '.' :: cs =>
    if (cs.takeWhile Char.isDigit).isEmpty then none else some (cs.dropWhile Char.isDigit)
  | cs => some cs

/-- The rest after a time; seconds may be missing. -/
def time? (cs : List Char) : Option (List Char) := do
  let (_, cs) ← fixedDigits 2 0 23 cs
  let cs ← mark? ':' cs
  let (_, cs) ← fixedDigits 2 0 59 cs
  match cs with
  | ':' :: cs => do
    let (_, cs) ← fixedDigits 2 0 60 cs
    secondFraction? cs
  | cs => return cs

/-- Whether a text is empty or an offset from universal time. -/
def isOffset : List Char → Bool
  | [] | ['Z'] | ['z'] => true
  | '+' :: cs | '-' :: cs =>
    match fixedDigits 2 0 23 cs with
    | some (_, ':' :: cs) => (fixedDigits 2 0 59 cs).any fun r => r.2.isEmpty
    | _ => false
  | _ => false

/-- Whether a text is a date, a time, or both with or without an offset. -/
def isDateTime (cs : List Char) : Bool :=
  match date? cs with
  | some [] => true
  | some (c :: rest) => (c = 'T' || c = 't' || c = ' ') && (time? rest).any isOffset
  | none => (time? cs).any List.isEmpty

/-! ## Words -/

/-- A character that may stand in a number, a date or a word. -/
def isWordChar (c : Char) : Bool :=
  c.isAlphanum || c = '_' || c = '-' || c = '+' || c = '.' || c = ':'

/-- A word. A space may stand between a date and a time. -/
def word (cs : List Char) : List Char × List Char :=
  let first := cs.takeWhile isWordChar
  match date? first, cs.dropWhile isWordChar with
  | some [], ' ' :: d :: rest =>
    if d.isDigit then
      (first ++ ' ' :: (d :: rest).takeWhile isWordChar, (d :: rest).dropWhile isWordChar)
    else (first, ' ' :: d :: rest)
  | _, rest => (first, rest)

/-- The value of a word. -/
def ofWord? (cs : List Char) : Option Toml :=
  if cs = ['t', 'r', 'u', 'e'] then some (.bool true)
  else if cs = ['f', 'a', 'l', 's', 'e'] then some (.bool false)
  else if isDateTime cs then some (.dateTime (String.ofList cs))
  else ((integer? cs).map integerValue).or (float? cs)

end PlanSync.TomlText
