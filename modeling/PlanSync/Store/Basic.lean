import PlanSync.Action
import PlanSync.Object.Basic
import PlanSync.Store.Error
import PlanSync.Store.Selector
import PlanSync.Text.Decimal

/-!
# Stores

A store is a state with five calls: get, list, create, update and delete. Each
call is atomic: from a state it gives an answer, a new state, and what it
reports. Nothing else is known of a store, so everything that is built on one
holds for every behaviour of its calls.

Stores number what they keep. A resource version is a text that holds the numeral
of a 64-bit word, and a text that holds none counts as zero.
-/

namespace PlanSync

/-- A store call. -/
abbrev Call (σ α : Type) := Action σ StoreError α

/-- A store with states of a type. -/
structure Store (σ : Type) where
  /-- One object. -/
  get : (k : Kind) → (namespaceName name : String) → Call σ (Object k)
  /-- The objects of a namespace that a selector accepts, ordered by name. -/
  list : (k : Kind) → (namespaceName : String) → Selector → Call σ (List (Object k))
  /-- Add an object whose name is free. -/
  create : (k : Kind) → Object k → Call σ (Object k)
  /-- Replace an object; a resource version it carries must be the stored one. -/
  update : (k : Kind) → Object k → Call σ (Object k)
  /-- Remove an object. -/
  delete : (k : Kind) → (namespaceName name : String) → Call σ Unit

/-! ## Resource versions -/

/-- The number of a resource version; zero if there is none. -/
def versionNumber (version : Option String) : Nat := (version.bind Text.readWord?).getD 0

/-- The version after another. Words wrap around. -/
def nextVersion (version : Option String) : String :=
  Text.decimal ((versionNumber version + 1) % Text.wordBound)

end PlanSync
