import PlanSync.SortedMap
import PlanSync.Number.Binary64

/-!
# JSON values

Numbers are either integers of 64 bits or doubles, and the two never mix:
`1` and `1.0` are different values. The members of an object are kept as a
list, so that a document can be written in the order of its fields; a value is
*canonical* when all members are in key order, and every value read from a
document is.
-/

namespace PlanSync

/-- A JSON number. -/
inductive JsonNumber where
  | int (value : Int)
  | float (value : Binary64)
  deriving DecidableEq

/-- A JSON value. -/
inductive Json where
  | null
  | bool (value : Bool)
  | number (value : JsonNumber)
  | string (value : String)
  | array (items : List Json)
  | object (members : List (String × Json))
  deriving Inhabited

namespace JsonNumber

/-- Whether an integer fits a 64-bit word, signed or unsigned. -/
def fits (i : Int) : Bool := -(Power.two 63 : Int) ≤ i && i < Power.two 64

/-- Equality of numbers: integers by value, doubles by value. -/
def same : JsonNumber → JsonNumber → Bool
  | int i, int j => i = j
  | float x, float y => x.same y
  | _, _ => false

/-- Whether a number is one that reading can give. -/
def canonical : JsonNumber → Bool
  | int i => fits i
  | float _ => true

end JsonNumber

namespace Json

/-- A member of an object. -/
def member? (k : String) (members : List (String × Json)) : Option Json :=
  List.lookup k members

/-- The entries of a list of members when each is set in turn. -/
def setAll (members : List (String × Json)) : List (String × Json) :=
  members.foldl (fun acc e => Entries.insert e.1 e.2 acc) []

mutual

/-- Equality of values: members in order, numbers by value. -/
def same : Json → Json → Bool
  | null, null => true
  | bool a, bool b => a = b
  | number m, number n => m.same n
  | string s, string t => s = t
  | array xs, array ys => sameItems xs ys
  | object xs, object ys => sameMembers xs ys
  | _, _ => false

def sameItems : List Json → List Json → Bool
  | [], [] => true
  | x :: xs, y :: ys => same x y && sameItems xs ys
  | _, _ => false

def sameMembers : List (String × Json) → List (String × Json) → Bool
  | [], [] => true
  | (k, x) :: xs, (l, y) :: ys => k = l && same x y && sameMembers xs ys
  | _, _ => false

end

mutual

/-- Whether all members are in key order and all numbers are ones that reading
can give. -/
def canonical : Json → Bool
  | number n => n.canonical
  | array xs => canonicalItems xs
  | object xs => decide (Entries.Sorted xs) && canonicalMembers xs
  | _ => true

def canonicalItems : List Json → Bool
  | [] => true
  | x :: xs => canonical x && canonicalItems xs

def canonicalMembers : List (String × Json) → Bool
  | [] => true
  | (_, x) :: xs => canonical x && canonicalMembers xs

end

mutual

/-- The value with all members in key order; of two members with one key the
later one counts. -/
def sortKeys : Json → Json
  | array xs => array (sortItems xs)
  | object xs => object (setAll (sortMembers xs))
  | j => j

def sortItems : List Json → List Json
  | [] => []
  | x :: xs => sortKeys x :: sortItems xs

def sortMembers : List (String × Json) → List (String × Json)
  | [] => []
  | (k, x) :: xs => (k, sortKeys x) :: sortMembers xs

end

instance : Coe String Json := ⟨string⟩

instance : Coe Bool Json := ⟨bool⟩

/-- A natural number as a value. -/
def ofNat (n : Nat) : Json := number (.int n)

/-- `null` for none. -/
def ofOption : Option Json → Json
  | some j => j
  | none => null

/-- A list of texts as a value. -/
def ofStrings (xs : List String) : Json := array (xs.map string)

end Json

end PlanSync
