import PlanSync.Json.Basic

/-!
# Documents

A document is a JSON text as its reader meets it: a tree in which the place
where the text goes wrong is a leaf of its own. A document is therefore never
refused as a whole. Whoever decodes it walks it from left to right and stops
at the first trouble, be it a value of the wrong shape or a place where the
text is broken, whichever comes first.

There are two ways to walk: *reading* a value, and *skipping* one that nobody
asks for. Skipping is more lenient: it passes over numbers that overflow,
strings with half a surrogate pair and nesting of any depth.
-/

namespace PlanSync

/-- How a text can go wrong. -/
inductive Fault where
  /-- A character that cannot stand where it stands. -/
  | malformed
  /-- The text ends too early. -/
  | truncated
  deriving DecidableEq

/-- Why a document gives no value of the wanted shape. -/
inductive ReadError where
  /-- The text is broken. -/
  | fault (f : Fault)
  /-- A value of another shape, a missing field or a repeated one. -/
  | mismatch
  /-- A list of fields that goes on after the last one. -/
  | surplus
  /-- A value that is no name where one of a few names is wanted. -/
  | notAName
  deriving DecidableEq

/-- A place where the text is broken, as it looks to a reader, to one who only
skips, and to a reader who wants one of a few names. -/
structure Break where
  reading : Fault
  skipping : Fault
  naming : ReadError
  deriving DecidableEq

/-- A break that looks the same to all. -/
def Break.all (f : Fault) : Break := ⟨f, f, .fault f⟩

/-- A break in something that does not begin like a name, so that who wants a
name has stopped before it. -/
def Break.unnamed (reading skipping : Fault) : Break := ⟨reading, skipping, .notAName⟩

/-- A break at a character that no value goes on or begins with. -/
def Break.noValue : Break := .unnamed .malformed .malformed

/-- A JSON text as a tree, broken places included. A key is `none` where its
string can only be skipped; the last component of an array or object is the
break, if any, that takes the place of its end. -/
inductive Document where
  | null
  | bool (value : Bool)
  | number (value : JsonNumber)
  | string (value : String)
  /-- A number or string that has no value and can only be skipped. -/
  | unreadable
  | broken (place : Break)
  | array (items : List Document) (close : Option Break)
  | object (members : List (Option String × Document)) (close : Option Break)
  /-- A container nested too deep to be read. -/
  | tooDeep (inner : Document)

/-- Where a document comes from. -/
inductive Medium where
  | text
  | value
  deriving DecidableEq

/-- The classes of read errors. -/
inductive ReadErrorClass where
  | syntaxError
  | endOfText
  | wrongData
  deriving DecidableEq

/-- The class of a read error. In a text, fields that go on after the last one
and values that cannot begin a name already offend the grammar. -/
def ReadError.classIn (medium : Medium) : ReadError → ReadErrorClass
  | fault .malformed => .syntaxError
  | fault .truncated => .endOfText
  | mismatch => .wrongData
  | surplus | notAName =>
    match medium with
    | .text => .syntaxError
    | .value => .wrongData

namespace Document

/-! ## Documents of values -/

mutual

/-- A value as a document without broken places. -/
def ofJson : Json → Document
  | .null => null
  | .bool b => bool b
  | .number n => number n
  | .string s => string s
  | .array xs => array (ofItems xs) none
  | .object xs => object (ofMembers xs) none

def ofItems : List Json → List Document
  | [] => []
  | x :: xs => ofJson x :: ofItems xs

def ofMembers : List (String × Json) → List (Option String × Document)
  | [] => []
  | (k, x) :: xs => (some k, ofJson x) :: ofMembers xs

end

/-! ## Skipping -/

/-- Stop at a break. -/
def endSkip : Option Break → Except ReadError Unit
  | none => .ok ()
  | some b => .error (.fault b.skipping)

mutual

/-- Pass over a document. -/
def skip : Document → Except ReadError Unit
  | broken b => .error (.fault b.skipping)
  | array items close => do skipItems items; endSkip close
  | object members close => do skipMembers members; endSkip close
  | tooDeep inner => skip inner
  | _ => .ok ()

def skipItems : List Document → Except ReadError Unit
  | [] => .ok ()
  | x :: xs => do skip x; skipItems xs

def skipMembers : List (Option String × Document) → Except ReadError Unit
  | [] => .ok ()
  | (_, x) :: xs => do skip x; skipMembers xs

end

/-! ## Reading any value -/

/-- The error for a document of the wrong shape: numbers and strings are read
to their end first. -/
def wrongShape : Document → ReadError
  | unreadable => .fault .malformed
  | broken b => .fault b.reading
  | _ => .mismatch

/-- Stop at a break. -/
def endRead : Option Break → Except ReadError Unit
  | none => .ok ()
  | some b => .error (.fault b.reading)

mutual

/-- The value of a document, members in key order; of two members with one key
the later one counts. -/
def toJson : Document → Except ReadError Json
  | null => .ok .null
  | bool b => .ok (.bool b)
  | number n => .ok (.number n)
  | string s => .ok (.string s)
  | unreadable | tooDeep _ => .error (.fault .malformed)
  | broken b => .error (.fault b.reading)
  | array items close => do
    let xs ← itemsToJson items
    endRead close
    return .array xs
  | object members close => do
    let xs ← membersToJson members
    endRead close
    return .object (Json.setAll xs)

def itemsToJson : List Document → Except ReadError (List Json)
  | [] => .ok []
  | x :: xs => do
    let y ← toJson x
    let ys ← itemsToJson xs
    return y :: ys

def membersToJson : List (Option String × Document) → Except ReadError (List (String × Json))
  | [] => .ok []
  | (none, _) :: _ => .error (.fault .malformed)
  | (some k, x) :: xs => do
    let y ← toJson x
    let ys ← membersToJson xs
    return (k, y) :: ys

end

end Document

end PlanSync
