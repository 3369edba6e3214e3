import PlanSync.Json.Reader

/-!
# Decoding documents

A decoder turns a document into a value of a type, or says why not. Records
come in two sorts. A *closed* record is written as an object, whose unknown
members are skipped, or as the array of its fields in order. An *open* record
is written as an object only and keeps its unknown members.

Members are taken in the order they are written, so the error is the first
one a reader meets; a known member that comes twice is an error before its
second value is looked at. Missing fields are noticed at the end.
-/

namespace PlanSync

/-- A decoder of documents. -/
abbrev Decoder (α : Type) := Document → Except ReadError α

namespace Decoder

variable {α β : Type}

/-! ## Scalars -/

/-- A string. -/
def string : Decoder String
  | .string s => .ok s
  | d => .error d.wrongShape

/-- A truth value. -/
def bool : Decoder Bool
  | .bool b => .ok b
  | d => .error d.wrongShape

/-- A natural number of 64 bits. -/
def word : Decoder Nat
  | .number (.int i) => if 0 ≤ i ∧ i < Text.wordBound then .ok i.toNat else .error .mismatch
  | d => .error d.wrongShape

/-- `null` or a value. -/
def option (f : Decoder α) : Decoder (Option α)
  | .null => .ok none
  | d => (f d).map some

/-- Any value. -/
def json : Decoder Json := Document.toJson

/-! ## Lists and maps -/

/-- Decode items in order. -/
def items (f : Decoder α) : List Document → Except ReadError (List α)
  | [] => .ok []
  | x :: xs => do
    let y ← f x
    let ys ← items f xs
    return y :: ys

/-- An array of values of one type. -/
def list (f : Decoder α) : Decoder (List α)
  | .array xs close => do
    let ys ← items f xs
    Document.endRead close
    return ys
  | .tooDeep _ => .error (.fault .malformed)
  | d => .error d.wrongShape

/-- Decode members in order. -/
def members (f : Decoder α) :
    List (Option String × Document) → Except ReadError (List (String × α))
  | [] => .ok []
  | (none, _) :: _ => .error (.fault .malformed)
  | (some k, x) :: xs => do
    let y ← f x
    let ys ← members f xs
    return (k, y) :: ys

/-- An object whose values have one type; of two members with one key the
later one counts. -/
def map (f : Decoder α) : Decoder (SortedMap String α)
  | .object xs close => do
    let ys ← members f xs
    Document.endRead close
    return .ofList ys
  | .tooDeep _ => .error (.fault .malformed)
  | d => .error d.wrongShape

/-! ## Records -/

/-- A check of the members of a record: a known field with a document that
suits it. -/
abbrev FieldCheck := String × (Document → Except ReadError Unit)

/-- A field of a type. -/
def FieldCheck.of (name : String) (f : Decoder α) : FieldCheck :=
  (name, fun d => (f d).map fun _ => ())

/-- The members of a record that have been taken. -/
structure Taken where
  /-- The known members. -/
  fields : List (String × Document)
  /-- The unknown members, kept or passed over. -/
  unknown : List (String × Document)

/-- Take the members of a record in order; `other` looks at unknown ones. -/
def takeMembers (known : List FieldCheck) (other : Document → Except ReadError Unit)
    (taken : Taken) : List (Option String × Document) → Except ReadError Taken
  | [] => .ok taken
  | (none, _) :: _ => .error (.fault .malformed)
  | (some k, x) :: xs =>
    match List.lookup k known with
    | some check =>
      if (List.lookup k taken.fields).isSome then .error .mismatch
      else do
        check x
        takeMembers known other { taken with fields := taken.fields ++ [(k, x)] } xs
    | none => do
      other x
      takeMembers known other { taken with unknown := taken.unknown ++ [(k, x)] } xs

/-- No member taken yet. -/
def Taken.none : Taken := ⟨[], []⟩

/-- The members of a closed record. -/
def closedRecord (known : List FieldCheck) : Decoder Taken
  | .object xs close => do
    let taken ← takeMembers known Document.skip .none xs
    Document.endRead close
    return taken
  | .array xs close => do
    let named := (known.map Prod.fst).zip xs
    let taken ← takeMembers known Document.skip .none (named.map fun e => (some e.1, e.2))
    if known.length < xs.length then .error .surplus
    Document.endRead close
    return taken
  | .tooDeep _ => .error (.fault .malformed)
  | d => .error d.wrongShape

/-- The members of an open record. -/
def openRecord (known : List FieldCheck) : Decoder Taken
  | .object xs close => do
    let taken ← takeMembers known (fun d => (json d).map fun _ => ()) .none xs
    Document.endRead close
    return taken
  | .tooDeep _ => .error (.fault .malformed)
  | d => .error d.wrongShape

/-- A field that must be there. -/
def Taken.required (taken : Taken) (name : String) (f : Decoder α) : Except ReadError α :=
  match List.lookup name taken.fields with
  | some d => f d
  | Option.none => .error .mismatch

/-- A field that may be missing or `null`. -/
def Taken.optional (taken : Taken) (name : String) (f : Decoder α) :
    Except ReadError (Option α) :=
  match List.lookup name taken.fields with
  | some d => option f d
  | Option.none => .ok Option.none

/-- A field with a value for when it is missing. -/
def Taken.withDefault (taken : Taken) (name : String) (default : α) (f : Decoder α) :
    Except ReadError α :=
  match List.lookup name taken.fields with
  | some d => f d
  | Option.none => .ok default

/-- The values of the unknown members. -/
def Taken.kept (taken : Taken) : Except ReadError (List (String × Json)) :=
  taken.unknown.mapM fun e => do
    let j ← json e.2
    return (e.1, j)

/-! ## Whole inputs -/

/-- Decode a value. -/
def ofJson (f : Decoder α) (j : Json) : Except ReadError α := f (.ofJson j)

/-- Decode a text, which must hold nothing after its value. -/
def ofText (f : Decoder α) (s : String) : Except ReadError α := do
  let (d, trailing) := Document.ofText s
  let a ← f d
  if trailing then .error (.fault .malformed) else return a

end Decoder

end PlanSync
