import PlanSync.Store.Memory
import PlanSync.Proofs.Object.Stored

/-!
# The store in memory

Two views of a store in memory carry all that is proved about passes. One is a
*cell*: what stands under a key. Every call looks at one cell and changes at
most that one (`Memory.create_cases` and its neighbours). The other is what the
store *holds*: the objects that are read from the cells, which is what listing
returns (`Memory.mem_list`).

Between the two stands an invariant of every state that calls can reach
(`Memory.Reachable.sound`): a cell is the stored form of an object with that
very key, so what is read from a cell says where it was read.
-/

namespace PlanSync

namespace Memory

variable {k : Kind}

/-! ## Cells -/

/-- What stands under a key. -/
def cell (m : Memory) (key : ObjectKey) : Option Json := m.objects.get? key

/-- **The store holds an object**: it is read from the cell of its key. -/
def Holds (m : Memory) (o : Object k) : Prop := ∃ j, m.cell o.key = some j ∧ decode k j = .ok o

theorem decode_eq_ok {j : Json} {o : Object k} :
    decode k j = .ok o ↔ Object.decoder k (.ofJson j) = .ok o := Answer.mapError_eq_ok

/-- A cell has room for one object. -/
theorem Holds.unique {m : Memory} {o o' : Object k} (h : m.Holds o) (h' : m.Holds o')
    (hk : o.key = o'.key) : o = o' := by
  obtain ⟨j, hj, hd⟩ := h
  obtain ⟨j', hj', hd'⟩ := h'
  rw [hk, hj'] at hj
  cases hj
  exact Except.ok.inj (hd.symm.trans hd')

/-- Something stands where an object is held. -/
theorem Holds.cell_ne_none {m : Memory} {o : Object k} {key : ObjectKey} (h : m.Holds o)
    (hkey : o.key = key) : m.cell key ≠ none := by
  obtain ⟨j, hj, -⟩ := h
  rw [← hkey, hj]
  exact Option.some_ne_none j

theorem Holds.readable {m : Memory} {o : Object k} (h : m.Holds o) : o.Readable := by
  obtain ⟨j, -, hd⟩ := h
  exact ⟨_, decode_eq_ok.mp hd⟩

/-- What a store holds depends on the cell alone. -/
theorem Holds.of_cell_eq {m m' : Memory} {o : Object k} (h : m.Holds o)
    (hc : m'.cell o.key = m.cell o.key) : m'.Holds o := by
  obtain ⟨j, hj, hd⟩ := h
  exact ⟨j, hc.trans hj, hd⟩

/-- A tidy object in its stored form is held. -/
theorem holds_of_cell {m : Memory} {o : Object k} (ht : o.Tidy) (hc : o.CreationReadsBack)
    (h : m.cell o.key = some o.toJson.sortKeys) : m.Holds o :=
  ⟨_, h, decode_eq_ok.mpr (Object.decoder_stored ht hc)⟩

/-! ### Writing -/

/-- **Writing changes the cell of the object**, and no other. -/
theorem cell_write (m : Memory) (o : Object k) (created : Option Timestamp) (key : ObjectKey) :
    (m.write o created).2.cell key
      = if key = o.key then
          some (o.stamped (some (Text.decimal (m.lastVersion + 1))) created).toJson.sortKeys
        else m.cell key :=
  SortedMap.get?_insert m.objects _ key _

theorem cell_write_of_ne {m : Memory} {o : Object k} {created : Option Timestamp}
    {key : ObjectKey} (h : key ≠ o.key) : (m.write o created).2.cell key = m.cell key := by
  rw [cell_write, if_neg h]

theorem cell_write_self (m : Memory) (o : Object k) (created : Option Timestamp) :
    (m.write o created).2.cell o.key
      = some (o.stamped (some (Text.decimal (m.lastVersion + 1))) created).toJson.sortKeys := by
  rw [cell_write, if_pos rfl]

/-- The store without what stands under a key. -/
def drop (m : Memory) (key : ObjectKey) : Memory :=
  { m with objects := m.objects.erase key, mutations := m.mutations + 1 }

/-- Dropping empties one cell. -/
theorem cell_drop (m : Memory) (key l : ObjectKey) :
    (m.drop key).cell l = if l = key then none else m.cell l :=
  SortedMap.get?_erase m.objects key l

/-! ## Calls -/

variable {clock : Nat → Timestamp}

theorem commit_ok {α : Type} {f : Memory → Except StoreError (α × Memory)} {m m' : Memory} {a : α}
    (h : f m = .ok (a, m')) : commit f m = { result := .ok a, state := m' } := by
  unfold commit
  rw [h]

theorem commit_error {α : Type} {f : Memory → Except StoreError (α × Memory)} {m : Memory}
    {e : StoreError} (h : f m = .error e) : commit f m = { result := .error e, state := m } := by
  unfold commit
  rw [h]

/-- A call that fails changes nothing. -/
theorem commit_cases {α : Type} (f : Memory → Except StoreError (α × Memory)) (m : Memory) :
    (∃ a m', f m = .ok (a, m') ∧ commit f m = { result := .ok a, state := m' })
      ∨ ∃ e, f m = .error e ∧ commit f m = { result := .error e, state := m } := by
  cases h : f m with
  | ok r => exact .inl ⟨r.1, r.2, rfl, commit_ok h⟩
  | error e => exact .inr ⟨e, rfl, commit_error h⟩

theorem store_create (o : Object k) (m : Memory) : (store clock).create k o m
    = commit (fun m => m.create (clock (m.lastVersion + 1)) o) m := rfl

theorem store_update (o : Object k) (m : Memory) :
    (store clock).update k o m = commit (fun m => m.update o) m := rfl

theorem store_delete (key : ObjectKey) (m : Memory) :
    (store clock).delete key.kind key.namespaceName key.name m
      = commit (fun m => (m.delete key).map fun m => ((), m)) m := rfl

/-- What creating needs: a key that can be stored, and a free cell. -/
def Admits (m : Memory) (key : ObjectKey) : Prop :=
  Naming.checkKey key = .ok () ∧ m.cell key = none

/-- **Creating succeeds exactly if the cell admits the object**, and then writes it. -/
theorem create_eq_ok_iff {m : Memory} {now : Timestamp} {o : Object k} {r : Object k × Memory} :
    m.create now o = .ok r ↔ m.Admits o.key ∧ r = m.write o (some now) := by
  rw [create, Answer.bind_eq_ok]
  constructor
  · rintro ⟨⟨⟩, hkey, h⟩
    split at h
    · cases h
    · next hfree =>
      cases h
      rw [Bool.not_eq_true, SortedMap.contains_eq_false_iff] at hfree
      exact ⟨⟨hkey, hfree⟩, rfl⟩
  · rintro ⟨⟨hkey, hfree⟩, rfl⟩
    refine ⟨(), hkey, ?_⟩
    rw [SortedMap.contains_eq_false_iff.mpr hfree, if_neg Bool.false_ne_true]
    rfl

/-- Creating writes an object if its cell admits one; otherwise it fails and
changes nothing. -/
theorem create_cases (clock : Nat → Timestamp) (m : Memory) (o : Object k) :
    (m.Admits o.key ∧ (store clock).create k o m
        = { result := .ok (m.write o (some (clock (m.lastVersion + 1)))).1
            state := (m.write o (some (clock (m.lastVersion + 1)))).2 })
      ∨ (¬ m.Admits o.key
        ∧ ∃ e, (store clock).create k o m = { result := .error e, state := m }) := by
  rw [store_create]
  rcases commit_cases (fun m => m.create (clock (m.lastVersion + 1)) o) m with
    ⟨a, m', hok, h⟩ | ⟨e, herror, h⟩
  · obtain ⟨hadmits, hwrite⟩ := create_eq_ok_iff.mp hok
    rw [h, ← hwrite]
    exact .inl ⟨hadmits, rfl⟩
  · refine .inr ⟨fun hadmits => ?_, e, h⟩
    cases herror.symm.trans (create_eq_ok_iff.mpr ⟨hadmits, rfl⟩)

/-- What an update needs: an object under a key that can be stored, of the
version that the update carries, if it carries one. -/
structure Replaces (m : Memory) (o stored : Object k) : Prop where
  storable : Naming.checkKey o.key = .ok ()
  found : ∃ j, m.cell o.key = some j ∧ decode k j = .ok stored
  version : checkVersion stored o = .ok ()

/-- **Updating succeeds exactly if there is an object to replace**, whose time of creation the
new one takes over. -/
theorem update_eq_ok_iff {m : Memory} {o : Object k} {r : Object k × Memory} :
    m.update o = .ok r
      ↔ ∃ stored, m.Replaces o stored ∧ r = m.write o stored.metadata.creationTimestamp := by
  rw [update, Answer.bind_eq_ok]
  constructor
  · rintro ⟨⟨⟩, hkey, h⟩
    cases hc : m.objects.get? o.key with
    | none =>
      rw [hc] at h
      cases h
    | some j =>
      rw [hc] at h
      obtain ⟨stored, hd, h⟩ := Answer.bind_eq_ok.mp h
      obtain ⟨⟨⟩, hv, h⟩ := Answer.bind_eq_ok.mp h
      cases h
      exact ⟨stored, ⟨hkey, ⟨j, hc, hd⟩, hv⟩, rfl⟩
  · rintro ⟨stored, ⟨hkey, ⟨j, hc, hd⟩, hv⟩, rfl⟩
    have hc : m.objects.get? o.key = some j := hc
    refine ⟨(), hkey, ?_⟩
    rw [hc]
    exact Answer.bind_eq_ok.mpr ⟨stored, hd, Answer.bind_eq_ok.mpr ⟨(), hv, rfl⟩⟩

/-- Updating writes an object over the one it replaces; if it replaces none, it
fails and changes nothing. -/
theorem update_cases (clock : Nat → Timestamp) (m : Memory) (o : Object k) :
    (∃ stored : Object k, m.Replaces o stored ∧ (store clock).update k o m
        = { result := .ok (m.write o stored.metadata.creationTimestamp).1
            state := (m.write o stored.metadata.creationTimestamp).2 })
      ∨ ((∀ stored, ¬ m.Replaces o stored)
        ∧ ∃ e, (store clock).update k o m = { result := .error e, state := m }) := by
  rw [store_update]
  rcases commit_cases (fun m => m.update o) m with ⟨a, m', hok, h⟩ | ⟨e, herror, h⟩
  · obtain ⟨stored, hreplaces, hwrite⟩ := update_eq_ok_iff.mp hok
    rw [h]
    exact .inl ⟨stored, hreplaces, by rw [← hwrite]⟩
  · refine .inr ⟨fun stored hreplaces => ?_, e, h⟩
    cases herror.symm.trans (update_eq_ok_iff.mpr ⟨stored, hreplaces, rfl⟩)

/-- A version that is carried is compared. -/
theorem version_of_checkVersion {stored o : Object k} (h : checkVersion stored o = .ok ())
    {v : String} (hv : o.metadata.resourceVersion = some v) :
    stored.metadata.resourceVersion = some v := by
  unfold checkVersion at h
  rw [hv] at h
  simp only at h
  split at h
  · next heq => exact heq
  · cases h

/-- Deleting empties a cell; if it was empty, the call fails and changes
nothing. -/
theorem delete_cases (clock : Nat → Timestamp) (m : Memory) (key : ObjectKey) :
    ((∃ j, m.cell key = some j) ∧ (store clock).delete key.kind key.namespaceName key.name m
        = { result := .ok (), state := m.drop key })
      ∨ (m.cell key = none ∧ (store clock).delete key.kind key.namespaceName key.name m
        = { result := .error (.notFound key), state := m }) := by
  rw [store_delete]
  cases hc : m.cell key with
  | none =>
    refine .inr ⟨rfl, commit_error ?_⟩
    show (m.delete key).map _ = _
    rw [delete, SortedMap.contains_eq_false_iff.mpr hc]
    rfl
  | some j =>
    refine .inl ⟨⟨j, rfl⟩, commit_ok ?_⟩
    show (m.delete key).map _ = _
    rw [delete, SortedMap.contains_iff.mpr ⟨j, hc⟩]
    rfl

/-! ## Reachable states -/

/-- **Reachable**: what changing calls on any objects make of an empty store.
Calls that only look change nothing. -/
inductive Reachable (clock : Nat → Timestamp) : Memory → Prop
  | empty : Reachable clock {}
  | create {m : Memory} (h : Reachable clock m) (k : Kind) (o : Object k) :
    Reachable clock ((store clock).create k o m).state
  | update {m : Memory} (h : Reachable clock m) (k : Kind) (o : Object k) :
    Reachable clock ((store clock).update k o m).state
  | delete {m : Memory} (h : Reachable clock m) (k : Kind) (namespaceName name : String) :
    Reachable clock ((store clock).delete k namespaceName name m).state

/-- What may stand in a cell: the stored form of an object with the key of the
cell, whose time of creation reads back. -/
def Stores (key : ObjectKey) (j : Json) : Prop :=
  ∃ o : Object key.kind, o.key = key ∧ o.CreationReadsBack ∧ j = o.toJson.sortKeys

/-- **Sound**: every cell has a key that can be stored and the stored form of
an object with that key. -/
def Sound (m : Memory) : Prop :=
  ∀ key j, m.cell key = some j → Naming.checkKey key = .ok () ∧ Stores key j

/-- **What is read from a cell says where it was read.** -/
theorem Sound.key_of_decode {m : Memory} (hm : m.Sound) {name namespaceName : String} {j : Json}
    {o : Object k} (hj : m.cell ⟨k, namespaceName, name⟩ = some j) (hd : decode k j = .ok o) :
    o.key = ⟨k, namespaceName, name⟩ ∧ o.CreationReadsBack := by
  obtain ⟨-, o', hkey, hc, rfl⟩ := hm _ _ hj
  have hmeta := Object.metadata_of_decoder_stored hc (decode_eq_ok.mp hd)
  refine ⟨?_, fun t ht => hc t (hmeta ▸ ht)⟩
  rw [← hkey]
  simp only [Object.key, Object.name, Object.namespaceName, hmeta]

/-- **What a store gives it holds**, under the key it was asked for. -/
theorem Sound.holds_of_get {m : Memory} (hm : m.Sound) {namespaceName name : String} {o : Object k}
    (h : m.get k namespaceName name = .ok o) : m.Holds o ∧ o.key = ⟨k, namespaceName, name⟩ := by
  unfold get at h
  cases hj : m.objects.get? ⟨k, namespaceName, name⟩ with
  | none =>
    simp only [hj] at h
    cases h
  | some j =>
    simp only [hj] at h
    have hkey := (hm.key_of_decode hj h).1
    exact ⟨⟨j, hkey ▸ hj, h⟩, hkey⟩

/-- The same, where something is known about what the store gives. -/
theorem Sound.exists_of_get {α : Type} {m : Memory} (hm : m.Sound) {namespaceName name : String}
    {f : Object k → α} {a : α} (h : (m.get k namespaceName name).toOption.map f = some a) :
    ∃ o : Object k, m.Holds o ∧ o.key = ⟨k, namespaceName, name⟩ ∧ f o = a := by
  obtain ⟨o, hget, heq⟩ := Option.map_eq_some_iff.mp h
  obtain ⟨hholds, hkey⟩ :=
    hm.holds_of_get (Option.some.inj (Answer.eq_ok_of_toOption (x := some _) hget))
  exact ⟨o, hholds, hkey, heq⟩

/-- Nothing is held under a key that cannot be stored. -/
theorem Sound.checkKey {m : Memory} (hm : m.Sound) {o : Object k} (h : m.Holds o) :
    Naming.checkKey o.key = .ok () := by
  obtain ⟨j, hj, -⟩ := h
  exact (hm _ _ hj).1

/-- What is written is the stored form of an object under its own key. -/
theorem Sound.write {m : Memory} (hm : m.Sound) {o : Object k} {created : Option Timestamp}
    (hkey : Naming.checkKey o.key = .ok ()) (hc : ∀ t, created = some t → t.ReadsBack) :
    (m.write o created).2.Sound := by
  intro key j hj
  rw [cell_write] at hj
  split at hj
  · next he =>
    subst he
    cases hj
    exact ⟨hkey, o.stamped _ created, rfl, hc, rfl⟩
  · exact hm key j hj

theorem Sound.drop {m : Memory} (hm : m.Sound) (key : ObjectKey) : (m.drop key).Sound := by
  intro l j hj
  rw [cell_drop] at hj
  split at hj
  · cases hj
  · exact hm l j hj

theorem Sound.create {m : Memory} (hm : m.Sound) (hclock : ∀ n, (clock n).ReadsBack)
    (o : Object k) : ((store clock).create k o m).state.Sound := by
  rcases create_cases clock m o with ⟨hadmits, h⟩ | ⟨-, e, h⟩
  · rw [h]
    refine hm.write hadmits.1 fun t ht => ?_
    cases ht
    exact hclock _
  · rw [h]
    exact hm

theorem Sound.update {m : Memory} (hm : m.Sound) (o : Object k) :
    ((store clock).update k o m).state.Sound := by
  rcases update_cases clock m o with ⟨stored, hr, h⟩ | ⟨-, e, h⟩
  · obtain ⟨j, hj, hd⟩ := hr.found
    rw [h]
    exact hm.write hr.storable (hm.key_of_decode hj hd).2
  · rw [h]
    exact hm

theorem Sound.delete {m : Memory} (hm : m.Sound) (key : ObjectKey) :
    ((store clock).delete key.kind key.namespaceName key.name m).state.Sound := by
  rcases delete_cases clock m key with ⟨-, h⟩ | ⟨-, h⟩
  · rw [h]
    exact hm.drop key
  · rw [h]
    exact hm

/-- **Every reachable state is sound**, if the times the clock tells read
back. -/
theorem Reachable.sound {m : Memory} (hclock : ∀ n, (clock n).ReadsBack)
    (h : Reachable clock m) : m.Sound := by
  induction h with
  | empty => exact fun _ _ hj => by cases hj
  | create _ k o ih => exact ih.create hclock o
  | update _ k o ih => exact ih.update o
  | delete _ k namespaceName name ih => exact ih.delete ⟨k, namespaceName, name⟩

end Memory

end PlanSync
