import PlanSync.Proofs.Store.Memory

/-!
# Content of a store

A store assigns a resource version and a time of creation to what it writes.
The *content* of a stored value is the value without these two, and two stores
have the same content when they have it under every key
(`Memory.SameContent`). Passes that reach one end by different ways write the
same objects in another order, so what they leave agrees in content and in
nothing more.

Content is read off the stored values, whether they can be read as objects or
not. What is written of an object has the content of the object, whatever the
store assigns (`Object.content_stamped`).
-/

namespace PlanSync

namespace Json

/-- A value without some of its members. -/
def withoutMembers (names : List String) : Json → Json
  | object xs => object (xs.filter fun e => e.1 ∉ names)
  | j => j

/-- What a store assigns to an object, by the names under which metadata has
it. -/
def assignedMembers : List String := ["resourceVersion", "creationTimestamp"]

/-- **The content of a stored value**: the value without what the store has
assigned. -/
def unassigned : Json → Json
  | object xs =>
    object (xs.map fun e =>
      (e.1, if e.1 = "metadata" then e.2.withoutMembers assignedMembers else e.2))
  | j => j

end Json

/-- Changing the values, each in the light of its key, changes what is found. -/
theorem Entries.lookup_mapEntries {κ α β : Type} [DecidableEq κ] (f : κ → α → β) (k : κ)
    (xs : List (κ × α)) :
    List.lookup k (xs.map fun e => (e.1, f e.1 e.2)) = (List.lookup k xs).map (f k) := by
  induction xs with
  | nil => rfl
  | cons e xs ih =>
    simp only [List.map_cons, lookup_cons, ih]
    by_cases h : k = e.1 <;> simp [h]

/-- Two written values have the same members, if members are found alike. -/
theorem Json.object_eq_of_lookup {xs ys : List (String × Json)} (hx : Entries.Sorted xs)
    (hy : Entries.Sorted ys) (h : ∀ k, List.lookup k xs = List.lookup k ys) :
    Json.object xs = .object ys :=
  congrArg Json.object (hx.ext hy h)

namespace Metadata

open Decoder

/-- What a store assigns changes no other member of metadata. -/
theorem unassigned_stored (m : Metadata) (version : Option String) (created : Option Timestamp) :
    ({ m with resourceVersion := version, creationTimestamp := created }).toJson.sortKeys.withoutMembers
        Json.assignedMembers
      = m.toJson.sortKeys.withoutMembers Json.assignedMembers := by
  have hsorted : ∀ m : Metadata, Entries.Sorted
      ((stored m.members).filter fun e => e.1 ∉ Json.assignedMembers) := fun m =>
    (Json.sorted_setAll _).filter _
  refine Json.object_eq_of_lookup (hsorted _) (hsorted m) fun k => ?_
  have hfind := fun m : Metadata =>
    Entries.lookup_filter (fun k => decide (k ∉ Json.assignedMembers)) k (stored m.members)
  refine (hfind _).trans (Eq.trans ?_ (hfind m).symm)
  by_cases hk : k ∈ Json.assignedMembers
  · simp [hk]
  · have hne : k ≠ "resourceVersion" ∧ k ≠ "creationTimestamp" := by
      simpa [Json.assignedMembers] using hk
    simp [hk, lookup_stored (nodup_members _), lookup_members, hne.1, hne.2]

end Metadata

namespace Object

variable {k : Kind}

open Decoder

/-- The content of an object as it is written. -/
def content (o : Object k) : Json := o.toJson.sortKeys.unassigned

/-- **What is written of an object has its content**, whatever the store
assigns. -/
theorem content_stamped (o : Object k) (version : Option String) (created : Option Timestamp) :
    (o.stamped version created).content = o.content := by
  have hsorted : ∀ o : Object k, Entries.Sorted ((stored o.members).map fun e =>
      (e.1, if e.1 = "metadata" then e.2.withoutMembers Json.assignedMembers else e.2)) := fun o =>
    List.pairwise_map.mpr (Json.sorted_setAll _)
  refine Json.object_eq_of_lookup (hsorted _) (hsorted o) fun key => ?_
  have hfind := fun o : Object k => Entries.lookup_mapEntries
    (fun key j => if key = "metadata" then Json.withoutMembers Json.assignedMembers j else j) key
    (stored o.members)
  refine (hfind _).trans (Eq.trans ?_ (hfind o).symm)
  rw [lookup_stored (nodup_members _), lookup_stored (nodup_members _)]
  by_cases hkey : key = "metadata"
  · subst hkey
    have hmetadata : ∀ o : Object k, List.lookup "metadata" o.members = some o.metadata.toJson :=
      fun _ => rfl
    simp only [hmetadata, Option.map_some, if_true]
    exact congrArg some (Metadata.unassigned_stored o.metadata version created)
  · simp [hkey, members, stamped, Entries.lookup_cons]

end Object

namespace Memory

/-- The content of what stands under a key. -/
def content (m : Memory) (key : ObjectKey) : Option Json := (m.cell key).map Json.unassigned

/-- **Two stores have the same content**: the same objects, apart from resource
versions and times of creation. -/
def SameContent (m m' : Memory) : Prop := ∀ key, m.content key = m'.content key

theorem content_of_cell_eq {m m' : Memory} {key : ObjectKey} (h : m.cell key = m'.cell key) :
    m.content key = m'.content key := congrArg _ h

/-- **What is written has the content of the object.** -/
theorem content_write_self (m : Memory) {k : Kind} (o : Object k) (created : Option Timestamp) :
    (m.write o created).2.content o.key = some o.content := by
  rw [content, cell_write_self, Option.map_some]
  exact congrArg some (o.content_stamped _ created)

theorem SameContent.refl (m : Memory) : m.SameContent m := fun _ => rfl

end Memory

end PlanSync
