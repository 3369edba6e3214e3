/-!
# Control sequences

Text for a terminal holds *control sequences*, which the terminal obeys and
does not show: an escape character and what belongs to it. Plain text is what
remains without them and without the other controls; line breaks and blanks
stay.

Sequences are told apart by how they end. A *control* (`ESC [`) ends with a
letter or another character from `@` to `~`, an *operating system command*
(`ESC ]`) with the bell, and a *string* with the string terminator: a device
control after its parameters (`ESC P`), or one of `ESC X`, `ESC ^` and
`ESC _`. Any other escape ends with its first character from `0` on. Cancel
and substitute break off every sequence, and an escape begins a new one. A
blank among the characters of an escape or a control shows, and with it what
follows up to the next control.
-/

namespace PlanSync.Text

/-- Where in a control sequence a text stands. -/
inductive Sequence where
  /-- Outside of sequences. -/
  | outside
  /-- Directly after an escape character. -/
  | escape
  /-- After an escape and characters that do not end it. -/
  | escapeMore
  /-- In a control. -/
  | control
  /-- At the start of a device control. -/
  | device
  /-- In the parameters of a device control. -/
  | deviceParameters
  /-- In what stands between parameters and string of a device control. -/
  | deviceMore
  /-- In a string. -/
  | string
  /-- In an operating system command. -/
  | command
  deriving DecidableEq

namespace Sequence

/-- Whether a character is between two others. -/
def isBetween (c low high : Char) : Bool := low ≤ c && c ≤ high

/-- Whether the string terminator is among the bytes of a character. -/
def holdsTerminator (c : Char) : Bool :=
  (String.utf8EncodeChar c).contains 0x9c

/-- The place after a character that belongs to a sequence. -/
def inside (c : Char) : Sequence → Sequence
  | outside => outside
  | escape =>
    if isBetween c ' ' '/' then escapeMore
    else if c = '[' then control
    else if c = ']' then command
    else if c = 'P' then device
    else if c = 'X' || c = '^' || c = '_' then string
    else if isBetween c '0' '~' then outside
    else escape
  | escapeMore => if isBetween c '0' '~' then outside else escapeMore
  | control => if isBetween c '@' '~' then outside else control
  | device =>
    if isBetween c ' ' '/' then deviceMore
    else if isBetween c '0' '?' then deviceParameters
    else if isBetween c '@' '~' then string
    else device
  | deviceParameters =>
    if isBetween c ' ' '/' then deviceMore
    else if isBetween c '<' '~' then string
    else deviceParameters
  | deviceMore => if isBetween c '0' '~' then string else deviceMore
  | string => if holdsTerminator c then outside else string
  | command => if c = '\x07' then outside else command

/-- The place after a character. -/
def after (s : Sequence) (c : Char) : Sequence :=
  if c = '\x18' || c = '\x1a' then outside
  else if c = '\x1b' then escape
  else inside c s

/-- Whether a character moves the place of writing to a new line or over
blanks, and is no space. -/
def isMove (c : Char) : Bool := c = '\t' || c = '\n' || c = '\x0c' || c = '\r'

/-- Whether a character can be shown. -/
def isShown (c : Char) : Bool := (' ' ≤ c && c ≠ '\x7f') || isMove c

/-- Whether a character begins to be shown at a place. -/
def startsShowing (s : Sequence) (c : Char) : Bool :=
  match s with
  | outside => isShown c
  | escape | escapeMore | control => isMove c
  | _ => false

/-- The shown characters of a text from a place on. Once characters are being
shown this goes on up to one that cannot be; characters beyond ASCII are never
part of a sequence then. -/
def shown (showing : Bool) (s : Sequence) : List Char → List Char
  | [] => []
  | c :: cs =>
    if (showing && isShown c) || startsShowing s c then
      c :: shown true (if c.toNat < 0x80 then s else outside) cs
    else shown false (s.after c) cs

end Sequence

/-- A text without control sequences and other controls. -/
def plain (s : String) : String := String.ofList (Sequence.shown false .outside s.toList)

end PlanSync.Text
