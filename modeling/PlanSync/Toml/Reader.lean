import PlanSync.Toml.Scalar

/-!
# From text to TOML

A document is a sequence of lines: a header, a key with its value, or neither;
each may end in a comment. A mark of byte order may stand before the first.
-/

namespace PlanSync.TomlText

/-! ## Between values -/

/-- The rest after a comment, if there is one. Its characters must be
printable. -/
def skipComment? : List Char → Option (List Char)
  | '#' :: cs =>
    let rest := cs.dropWhile isPrintable
    if rest.isEmpty || (lineBreak? rest).isSome then some rest else none
  | cs => some cs

/-- The rest after blanks, comments and line breaks. -/
def skipFiller : Nat → List Char → Option (List Char)
  | 0, cs => some cs
  | n + 1, cs => do
    let cs ← skipComment? (skipBlanks cs)
    match lineBreak? cs with
    | some rest => skipFiller n rest
    | none => return cs

/-- The rest after the end of a line. -/
def endOfLine? (cs : List Char) : Option (List Char) := do
  let cs ← skipComment? (skipBlanks cs)
  if cs.isEmpty then return [] else lineBreak? cs

/-! ## Values -/

mutual

/-- A value, in which arrays and tables in braces may be nested `room` deep. -/
def valueIn (room : Nat) : Nat → Reader Toml
  | 0, _ => none
  | n + 1, cs =>
    match cs, room with
    | '"' :: _, _ | '\'' :: _, _ => (string true cs).map fun r => (.string r.1, r.2)
    | '[' :: _, 0 | '\x7b' :: _, 0 => none
    | '[' :: rest, room + 1 => do
      let (xs, rest) ← itemsAfter room n rest
      return (.array xs, rest)
    | '\x7b' :: rest, room + 1 => do
      let (t, rest) ← membersAfter room n .empty rest
      match t with
      | .table _ entries => return (.table .inline entries, rest)
      | _ => none
    | cs, _ =>
      let (w, rest) := word cs
      (ofWord? w).map fun t => (t, rest)

/-- The items of an array after its opening bracket or a comma. -/
def itemsAfter (room : Nat) : Nat → Reader (List Toml)
  | 0, _ => none
  | n + 1, cs => do
    let cs ← skipFiller cs.length cs
    match cs with
    | ']' :: rest => return ([], rest)
    | cs => do
      let (x, rest) ← valueIn room n cs
      let rest ← skipFiller rest.length rest
      match rest with
      | ',' :: rest => do
        let (xs, rest) ← itemsAfter room n rest
        return (x :: xs, rest)
      | ']' :: rest => return ([x], rest)
      | _ => none

/-- The members of a table in braces, after its opening brace or a comma,
added to those before. Lines may end anywhere but in a key. -/
def membersAfter (room : Nat) : Nat → Toml → Reader Toml
  | 0, _, _ => none
  | n + 1, t, cs => do
    let cs ← skipFiller cs.length cs
    match cs with
    | '\x7d' :: rest => return (t, rest)
    | cs => do
      let ((path, last), rest) ← key cs
      let rest ← mark? '=' (← skipFiller rest.length rest)
      let (x, rest) ← valueIn room n (← skipFiller rest.length rest)
      let t ← t.setKey path last x
      let rest ← skipFiller rest.length rest
      match rest with
      | ',' :: rest => membersAfter room n t rest
      | '\x7d' :: rest => return (t, rest)
      | _ => none

end

/-- A value. -/
def value : Reader Toml := fun cs => valueIn depthLimit cs.length cs

/-! ## Lines -/

/-- A header after its opening bracket. -/
def headerAfter (isItem : Bool) : Reader Toml.Header := fun cs => do
  let cs := skipBlanks cs
  let ((parents, last), rest) ← key cs
  let rest ← mark? ']' rest
  let rest ← if isItem then mark? ']' rest else some rest
  return (⟨parents, last, isItem⟩, rest)

/-- A header. -/
def header : Reader Toml.Header
  | '[' :: '[' :: cs => headerAfter true cs
  | '[' :: cs => headerAfter false cs
  | _ => none

/-- Read lines into a document, given the header that was opened last. -/
def readLines : Nat → Option Toml.Header → Toml → List Char → Option Toml
  | 0, _, t, cs => if cs.isEmpty then some t else none
  | n + 1, last, t, cs => do
    let cs ← skipFiller cs.length cs
    match cs with
    | [] => return t
    | '[' :: _ => do
      let (h, rest) ← header cs
      let t ← h.apply t
      let rest ← endOfLine? rest
      readLines n (some h) t rest
    | cs => do
      let ((path, name), rest) ← key cs
      let rest ← mark? '=' rest
      let (x, rest) ← value (skipBlanks rest)
      let t ← t.setBelow last path name x
      let rest ← endOfLine? rest
      readLines n last t rest

end PlanSync.TomlText

namespace PlanSync.Toml

/-- The document of a text. -/
def ofText? (s : String) : Option Toml :=
  let cs :=
    match s.toList with
    | '\ufeff' :: cs => cs
    | cs => cs
  TomlText.readLines (cs.length + 1) none empty cs

end PlanSync.Toml
