import PlanSync.Store.Basic
import PlanSync.Store.Naming

/-!
# A store in memory

Objects are kept as JSON values, so what comes out has gone through the same
reading and writing that any store would apply. Every object that is written
gets the next version of a counter that all objects share.
-/

namespace PlanSync

/-- A store in memory. -/
structure Memory where
  objects : SortedMap ObjectKey Json := .empty
  /-- The version assigned last. -/
  lastVersion : Nat := 0
  /-- How many calls have changed the store. -/
  mutations : Nat := 0

namespace Memory

/-- The number of objects of a kind. -/
def count (m : Memory) (kind : Kind) : Nat := m.objects.keys.countP fun k => k.kind = kind

/-- Read a stored value. -/
def decode (k : Kind) (j : Json) : Except StoreError (Object k) :=
  (Decoder.ofJson (Object.decoder k) j).mapError .json

/-- Read objects up to the first that cannot be read, and keep those a
selector accepts. -/
def decodeAll (k : Kind) (selector : Selector) : List Json → Except StoreError (List (Object k))
  | [] => .ok []
  | j :: js => do
    let o ← decode k j
    let os ← decodeAll k selector js
    return if selector.accepts o.labels then o :: os else os

/-- The stored values of a kind in a namespace, by name. -/
def valuesIn (m : Memory) (k : Kind) (namespaceName : String) : List Json :=
  (m.objects.entries.filter fun e =>
    e.1.kind = k && e.1.namespaceName = namespaceName).map Prod.snd

/-- One object. -/
def get (m : Memory) (k : Kind) (namespaceName name : String) : Except StoreError (Object k) :=
  let key : ObjectKey := ⟨k, namespaceName, name⟩
  match m.objects.get? key with
  | some j => decode k j
  | none => .error (.notFound key)

/-- The objects of a namespace that a selector accepts. -/
def list (m : Memory) (k : Kind) (namespaceName : String) (selector : Selector) :
    Except StoreError (List (Object k)) :=
  decodeAll k selector (m.valuesIn k namespaceName)

/-- Store an object under the next version. -/
def write (m : Memory) {k : Kind} (o : Object k) (created : Option Timestamp) :
    Object k × Memory :=
  let version := m.lastVersion + 1
  let o :=
    { o with
      metadata :=
        { o.metadata with
          resourceVersion := some (Text.decimal version), creationTimestamp := created } }
  (o,
    { objects := m.objects.insert o.key o.toJson.sortKeys
      lastVersion := version
      mutations := m.mutations + 1 })

/-- Add an object whose name is free. -/
def create (m : Memory) (now : Timestamp) {k : Kind} (o : Object k) :
    Except StoreError (Object k × Memory) := do
  Naming.checkKey o.key
  if m.objects.contains o.key then .error (.alreadyExists o.key)
  else return m.write o (some now)

/-- Refuse a resource version that is not the stored one. -/
def checkVersion {k : Kind} (stored o : Object k) : Except StoreError Unit :=
  match o.metadata.resourceVersion with
  | none => .ok ()
  | some v =>
    if stored.metadata.resourceVersion = some v then .ok ()
    else
      .error
        (.conflict o.key
          ("resource version " ++ v ++ " is stale (stored "
            ++ Text.decimal (versionNumber stored.metadata.resourceVersion) ++ ")"))

/-- Replace an object. -/
def update (m : Memory) {k : Kind} (o : Object k) : Except StoreError (Object k × Memory) := do
  Naming.checkKey o.key
  match m.objects.get? o.key with
  | none => .error (.notFound o.key)
  | some j => do
    let stored ← decode k j
    checkVersion stored o
    return m.write o stored.metadata.creationTimestamp

/-- Remove an object. -/
def delete (m : Memory) (key : ObjectKey) : Except StoreError Memory :=
  if m.objects.contains key then
    .ok { m with objects := m.objects.erase key, mutations := m.mutations + 1 }
  else .error (.notFound key)

/-- A call that changes the store only if it succeeds. -/
def commit {α : Type} (f : Memory → Except StoreError (α × Memory)) : Call Memory α := fun m =>
  match f m with
  | .ok (a, m) => { result := .ok a, state := m }
  | .error e => { result := .error e, state := m }

/-- The store in memory. The clock tells the time at which a version is
assigned. -/
def store (clock : Nat → Timestamp) : Store Memory where
  get k ns name m := { result := m.get k ns name, state := m }
  list k ns selector m := { result := m.list k ns selector, state := m }
  create _ o := commit fun m => m.create (clock (m.lastVersion + 1)) o
  update _ o := commit fun m => m.update o
  delete k ns name := commit fun m => (m.delete ⟨k, ns, name⟩).map fun m => ((), m)

end Memory

end PlanSync
