import Mathlib.Data.List.Induction
import PlanSync.Proofs.Action
import PlanSync.Proofs.Store.History
import PlanSync.Proofs.Store.Listing
import PlanSync.Proofs.Store.Requests

/-!
# A store in memory under requests

What clients may rely on who share a store in memory, whatever they ask of it and in
whatever order (`Memory.consistent`). The guard against lost updates is that every
write takes the next version of one counter, and that neither deletions nor failures
take it back. So what is under a key after it was changed has a version that nobody
has seen before the change (`Memory.Issued.newer`), and an update that carries a copy
succeeds only while nobody has changed the key since the copy was given.
-/

namespace PlanSync

/-- Keys that agree in all but the name are ordered by name. -/
theorem ObjectKey.name_lt_of_lt {k : Kind} {namespaceName name name' : String}
    (h : (⟨k, namespaceName, name⟩ : ObjectKey) < ⟨k, namespaceName, name'⟩) : name < name' := by
  have hparts : [_, namespaceName, name] < [_, namespaceName, name'] := h
  rcases List.cons_lt_cons_iff.mp hparts with hlt | ⟨-, hparts⟩
  · exact absurd hlt Std.lt_irrefl
  rcases List.cons_lt_cons_iff.mp hparts with hlt | ⟨-, hparts⟩
  · exact absurd hlt Std.lt_irrefl
  rcases List.cons_lt_cons_iff.mp hparts with hlt | ⟨-, hnil⟩
  · exact hlt
  · exact absurd hnil (List.not_lt_nil _)

namespace Memory

variable {clock : Nat → Timestamp} {m m' : Memory} {k : Kind} {r : Request}
  {requests : List Request}

/-! ## One request -/

/-- **How a request is answered**: it is refused and changes nothing, it only looks and
gives what is held, or it changes what is under its key. -/
inductive Issued (clock : Nat → Timestamp) (m : Memory) :
    Request → Except StoreError (List Copy) → Memory → Prop
  | refused (r : Request) (e : StoreError) : Issued clock m r (.error e) m
  | looked {r : Request} {copies : List Copy} (hlook : r.target? = none)
      (hheld : ∀ c ∈ copies, m.Holds c.2) : Issued clock m r (.ok copies) m
  | created {k : Kind} {o : Object k} (hadmits : m.Admits o.key) :
    Issued clock m (.create k o) (.ok [⟨k, (m.write o (some (clock (m.lastVersion + 1)))).1⟩])
      (m.write o (some (clock (m.lastVersion + 1)))).2
  | updated {k : Kind} {o stored : Object k} (hreplaces : m.Replaces o stored) :
    Issued clock m (.update k o) (.ok [⟨k, (m.write o stored.metadata.creationTimestamp).1⟩])
      (m.write o stored.metadata.creationTimestamp).2
  | deleted {key : ObjectKey} {j : Json} (hj : m.cell key = some j) :
    Issued clock m (.delete key) (.ok []) (m.drop key)

/-- Looking changes nothing. -/
theorem get_leaves (clock : Nat → Timestamp) (m : Memory) (key : ObjectKey) :
    ((store clock).get key.kind key.namespaceName key.name).Leaves m
      (m.get key.kind key.namespaceName key.name) m := ⟨rfl, rfl⟩

theorem list_leaves (clock : Nat → Timestamp) (m : Memory) (k : Kind) (namespaceName : String)
    (selector : Selector) : ((store clock).list k namespaceName selector).Leaves m
      (m.list k namespaceName selector) m := ⟨rfl, rfl⟩

theorem issued_of_leaves {result : Except StoreError (List Copy)}
    (h : (r.issue (store clock)).Leaves m result m') (hissued : Issued clock m r result m') :
    Issued clock m r (r.issue (store clock) m).result (r.issue (store clock) m).state := by
  rwa [h.1, h.2]

/-- **Every request is answered so.** -/
theorem issued (hm : m.Sound) (r : Request) :
    Issued clock m r (r.issue (store clock) m).result (r.issue (store clock) m).state := by
  cases r with
  | get key =>
    refine issued_of_leaves ((get_leaves clock m key).map fun o => [(⟨key.kind, o⟩ : Copy)]) ?_
    cases hget : m.get key.kind key.namespaceName key.name with
    | error e => exact .refused _ e
    | ok o =>
      refine .looked rfl fun c hc => ?_
      obtain rfl := List.mem_singleton.mp hc
      exact (hm.holds_of_get hget).1
  | list k namespaceName selector =>
    refine issued_of_leaves ((list_leaves clock m k namespaceName selector).map
      (List.map fun o : Object k => (⟨k, o⟩ : Copy))) ?_
    cases hlist : m.list k namespaceName selector with
    | error e => exact .refused _ e
    | ok os =>
      refine .looked rfl fun c hc => ?_
      obtain ⟨o, ho, rfl⟩ := List.mem_map.mp hc
      exact ((mem_list hm hlist o).mp ho).1
  | create k o =>
    rcases create_cases clock m o with ⟨hadmits, h⟩ | ⟨-, e, h⟩
    · exact issued_of_leaves ((Action.leaves_of_eq h).map fun o => [(⟨k, o⟩ : Copy)])
        (.created hadmits)
    · exact issued_of_leaves ((Action.leaves_of_eq h).map fun o => [(⟨k, o⟩ : Copy)])
        (.refused _ e)
  | update k o =>
    rcases update_cases clock m o with ⟨stored, hreplaces, h⟩ | ⟨-, e, h⟩
    · exact issued_of_leaves ((Action.leaves_of_eq h).map fun o => [(⟨k, o⟩ : Copy)])
        (.updated hreplaces)
    · exact issued_of_leaves ((Action.leaves_of_eq h).map fun o => [(⟨k, o⟩ : Copy)])
        (.refused _ e)
  | delete key =>
    rcases delete_cases clock m key with ⟨⟨j, hj⟩, h⟩ | ⟨-, h⟩
    · exact issued_of_leaves ((Action.leaves_of_eq h).map fun _ => []) (.deleted hj)
    · exact issued_of_leaves ((Action.leaves_of_eq h).map fun _ => []) (.refused _ _)

namespace Issued

variable {result : Except StoreError (List Copy)} {copies : List Copy}

/-- The time of creation of what is written reads back. -/
theorem creation_readsBack (hm : m.Sound) {o stored : Object k} (h : m.Replaces o stored) :
    ∀ t, stored.metadata.creationTimestamp = some t → t.ReadsBack := by
  obtain ⟨j, hj, hd⟩ := h.found
  exact (hm.key_of_decode hj hd).2

theorem clock_readsBack (hclock : ∀ n, (clock n).ReadsBack) (n : Nat) :
    ∀ t, some (clock n) = some t → t.ReadsBack := fun _ ht => Option.some.inj ht ▸ hclock n

theorem sound (hclock : ∀ n, (clock n).ReadsBack) (hm : m.Sound) (h : Issued clock m r result m') :
    m'.Sound := by
  cases h with
  | refused | looked => exact hm
  | created hadmits => exact hm.write hadmits.1 (clock_readsBack hclock _)
  | updated hreplaces => exact hm.write hreplaces.storable (creation_readsBack hm hreplaces)
  | deleted => exact hm.drop _

/-- A request leads to a later state. -/
theorem since (hclock : ∀ n, (clock n).ReadsBack) (hm : m.Sound) (h : Issued clock m r result m') :
    Since m m' := by
  cases h with
  | refused | looked => exact .refl m
  | created => exact .write m _ (clock_readsBack hclock _)
  | updated hreplaces => exact .write m _ (creation_readsBack hm hreplaces)
  | deleted => exact .drop m _

/-- **A request that fails changes nothing.** -/
theorem state_of_error {e : StoreError} (h : Issued clock m r (.error e) m') : m' = m := by
  cases h with
  | refused => rfl

/-- **A request that only looks changes nothing.** -/
theorem state_of_look (h : Issued clock m r result m') (hlook : r.target? = none) : m' = m := by
  cases h with
  | refused | looked => rfl
  | created | updated | deleted => cases hlook

/-- **A change counts once.** -/
theorem mutations_of_change (h : Issued clock m r (.ok copies) m') {key : ObjectKey}
    (htarget : r.target? = some key) : m'.mutations = m.mutations + 1 := by
  cases h with
  | looked hlook => cases hlook.symm.trans htarget
  | created | updated | deleted => rfl

/-- **What is written gets the next version.** -/
theorem version_of_write (h : Issued clock m r (.ok copies) m') (hwrite : r.isWrite = true)
    {c : Copy} (hc : c ∈ copies) :
    c.version = some (Text.decimal (m.lastVersion + 1)) ∧ m'.lastVersion = m.lastVersion + 1 := by
  cases h with
  | looked hlook => cases (Request.isWrite_of_look hlook).symm.trans hwrite
  | created | updated =>
    obtain rfl := List.mem_singleton.mp hc
    exact ⟨rfl, rfl⟩
  | deleted => cases hc

/-- An update that succeeds has replaced an object. -/
theorem exists_replaced {o : Object k} (h : Issued clock m (.update k o) (.ok copies) m') :
    ∃ stored, m.Replaces o stored := by
  cases h with
  | looked hlook => cases hlook
  | updated hreplaces => exact ⟨_, hreplaces⟩

/-- **What a request gives has a version** that the counter has reached. -/
theorem given (hsince : Since {} m) (h : Issued clock m r (.ok copies) m') {c : Copy}
    (hc : c ∈ copies) : ∃ n, n ≤ m'.lastVersion ∧ c.version = some (Text.decimal n) := by
  cases h with
  | looked _ hheld => exact hsince.exists_version (hheld c hc)
  | created | updated =>
    obtain rfl := List.mem_singleton.mp hc
    exact ⟨m.lastVersion + 1, Nat.le_refl _, rfl⟩
  | deleted => cases hc

/-- **What is under a key after a change has a version that was not given before.** -/
theorem newer (hclock : ∀ n, (clock n).ReadsBack) (hm : m.Sound)
    (h : Issued clock m r (.ok copies) m') {key : ObjectKey} (htarget : r.target? = some key)
    {j : Json} (hj : m'.cell key = some j) : ∃ n, m.lastVersion < n ∧ WrittenAt n key j := by
  have written : ∀ {k : Kind} {o : Object k} {created : Option Timestamp},
      (∀ t, created = some t → t.ReadsBack) → o.key = key →
      (m.write o created).2.cell key = some j → ∃ n, m.lastVersion < n ∧ WrittenAt n key j := by
    rintro k o created hc rfl hj
    rw [cell_write_self] at hj
    cases hj
    exact ⟨m.lastVersion + 1, Nat.lt_succ_self _, writtenAt_write hc⟩
  cases h with
  | looked hlook => cases hlook.symm.trans htarget
  | created => exact written (clock_readsBack hclock _) (Option.some.inj htarget) hj
  | updated hreplaces =>
    exact written (creation_readsBack hm hreplaces) (Option.some.inj htarget) hj
  | deleted =>
    cases htarget
    rw [cell_drop, if_pos rfl] at hj
    cases hj

end Issued

/-! ## What stands in a store -/

/-- **All cells can be read.** -/
def Legible (m : Memory) : Prop :=
  ∀ key j, m.cell key = some j → ∃ o : Object key.kind, decode key.kind j = .ok o

/-- **No two objects have one version.** -/
def Distinct (m : Memory) : Prop :=
  ∀ c c' : Copy, m.Holds c.2 → m.Holds c'.2 → c.version = c'.version → c.key = c'.key

/-- **An object has existed since a time**: it is under its key, and says so. -/
def ExistsSince (m : Memory) (key : ObjectKey) (created : Option Timestamp) : Prop :=
  ∃ o : Object key.kind, m.Holds o ∧ o.key = key ∧ o.metadata.creationTimestamp = created

theorem Legible.write (h : m.Legible) {o : Object k} (ho : o.Readable) {created : Option Timestamp}
    (hc : ∀ t, created = some t → t.ReadsBack) : (m.write o created).2.Legible := by
  intro key j hj
  rw [cell_write] at hj
  split at hj
  · next hkey =>
    subst hkey
    cases hj
    exact ⟨_, decode_eq_ok.mpr (Object.decoder_stored (Object.tidy_of_readable ho).stamped hc)⟩
  · exact h key j hj

/-- What is held after a write was written then, or held before. -/
theorem holds_write {o : Object k} {created : Option Timestamp}
    (hc : ∀ t, created = some t → t.ReadsBack) {k' : Kind} {o' : Object k'}
    (h : (m.write o created).2.Holds o') :
    (o'.key = o.key ∧ o'.metadata.resourceVersion = some (Text.decimal (m.lastVersion + 1)))
      ∨ (o'.key ≠ o.key ∧ m.Holds o') := by
  by_cases hkey : o'.key = o.key
  · obtain ⟨j, hj, hd⟩ := h
    rw [hkey, cell_write_self] at hj
    cases hj
    have hwritten : WrittenAt (m.lastVersion + 1) o.key
        (o.stamped (some (Text.decimal (m.lastVersion + 1))) created).toJson.sortKeys :=
      writtenAt_write hc
    rw [← hkey] at hwritten
    exact .inl ⟨hkey, hwritten.version hd⟩
  · exact .inr ⟨hkey, h.of_cell_eq (cell_write_of_ne hkey).symm⟩

theorem Distinct.write (h : m.Distinct) (hsince : Since {} m) {o : Object k}
    {created : Option Timestamp} (hc : ∀ t, created = some t → t.ReadsBack) :
    (m.write o created).2.Distinct := by
  -- what was held before has a version that the counter had reached
  have hold : ∀ c : Copy, m.Holds c.2 → c.version ≠ some (Text.decimal (m.lastVersion + 1)) := by
    intro c hc hversion
    obtain ⟨n, hn, hversion'⟩ := hsince.exists_version hc
    have heq := Text.decimal_injective (Option.some.inj (hversion'.symm.trans hversion))
    omega
  intro c₁ c₂ h₁ h₂ hversion
  rcases holds_write hc h₁ with ⟨hkey₁, hversion₁⟩ | ⟨-, hheld₁⟩ <;>
  rcases holds_write hc h₂ with ⟨hkey₂, hversion₂⟩ | ⟨-, hheld₂⟩
  · exact hkey₁.trans hkey₂.symm
  · exact absurd (hversion.symm.trans hversion₁) (hold c₂ hheld₂)
  · exact absurd (hversion.trans hversion₂) (hold c₁ hheld₁)
  · exact h c₁ c₂ hheld₁ hheld₂ hversion

theorem Distinct.drop (h : m.Distinct) (key : ObjectKey) : (m.drop key).Distinct := by
  have hold : ∀ c : Copy, (m.drop key).Holds c.2 → m.Holds c.2 := by
    rintro c ⟨j, hj, hd⟩
    rw [cell_drop] at hj
    split at hj
    · cases hj
    · exact ⟨j, hj, hd⟩
  exact fun c c' hc hc' hversion => h c c' (hold c hc) (hold c' hc') hversion

theorem ExistsSince.of_cell_eq {key : ObjectKey} {created : Option Timestamp}
    (h : m.ExistsSince key created) (hcell : m'.cell key = m.cell key) :
    m'.ExistsSince key created := by
  obtain ⟨o, ho, hkey, hcreated⟩ := h
  exact ⟨o, ho.of_cell_eq (hkey.symm ▸ hcell), hkey, hcreated⟩

/-- What is written over an object is read from its cell. -/
theorem existsSince_write {o : Object k} (ho : o.Readable) {created : Option Timestamp}
    (hc : ∀ t, created = some t → t.ReadsBack) :
    (m.write o created).2.ExistsSince o.key created :=
  ⟨o.stamped _ created, holds_of_cell (Object.tidy_of_readable ho).stamped hc (cell_write_self ..),
    rfl, rfl⟩

namespace Issued

variable {result : Except StoreError (List Copy)} {copies : List Copy}

/-- **What is created exists** since the time that is given. -/
theorem existsSince_of_created (hclock : ∀ n, (clock n).ReadsBack) {o : Object k}
    (ho : o.Readable) (h : Issued clock m (.create k o) (.ok copies) m') :
    ∃ c ∈ copies, m'.ExistsSince o.key c.2.metadata.creationTimestamp := by
  cases h with
  | looked hlook => cases hlook
  | created =>
    exact ⟨_, List.mem_singleton_self _, existsSince_write ho (clock_readsBack hclock _)⟩

theorem legible (hclock : ∀ n, (clock n).ReadsBack) (hm : m.Sound) (h : Issued clock m r result m')
    (hr : r.Readable) (hlegible : m.Legible) : m'.Legible := by
  cases h with
  | refused | looked => exact hlegible
  | created => exact hlegible.write hr (clock_readsBack hclock _)
  | updated hreplaces => exact hlegible.write hr (creation_readsBack hm hreplaces)
  | @deleted key =>
    intro l j hj
    rw [cell_drop] at hj
    split at hj
    · cases hj
    · exact hlegible l j hj

theorem distinct (hclock : ∀ n, (clock n).ReadsBack) (hm : m.Sound) (hsince : Since {} m)
    (h : Issued clock m r result m') (hdistinct : m.Distinct) : m'.Distinct := by
  cases h with
  | refused | looked => exact hdistinct
  | created => exact hdistinct.write hsince (clock_readsBack hclock _)
  | updated hreplaces => exact hdistinct.write hsince (creation_readsBack hm hreplaces)
  | deleted => exact hdistinct.drop _

/-- **An object keeps its time of creation** until it is deleted. -/
theorem existsSince (hm : m.Sound) (h : Issued clock m r result m') (hr : r.Readable)
    {key : ObjectKey} (hnot : r = .delete key → ∃ e, result = .error e)
    {created : Option Timestamp} (hexists : m.ExistsSince key created) :
    m'.ExistsSince key created := by
  have ⟨held, hheld, hkey, hcreated⟩ := hexists
  cases h with
  | refused | looked => exact hexists
  | @created k o hadmits =>
    refine hexists.of_cell_eq (cell_write_of_ne ?_)
    rintro rfl
    exact hheld.cell_ne_none hkey hadmits.2
  | @updated k o stored hreplaces =>
    by_cases ho : key = o.key
    · subst ho
      obtain ⟨j, hj, hd⟩ := hreplaces.found
      have hstored : stored.key = o.key := (hm.key_of_decode hj hd).1
      have heq : held = stored :=
        hheld.unique ⟨j, hstored.symm ▸ hj, hd⟩ (hkey.trans hstored.symm)
      rw [← hcreated, heq]
      exact existsSince_write hr (creation_readsBack hm hreplaces)
    · exact hexists.of_cell_eq (cell_write_of_ne ho)
  | @deleted key' j hj =>
    refine hexists.of_cell_eq ((cell_drop m key' key).trans (if_neg ?_))
    rintro rfl
    obtain ⟨e, he⟩ := hnot rfl
    cases he

end Issued

/-! ## Runs -/

section Runs

variable {s : Memory} {key : ObjectKey}

theorem sound_after (hclock : ∀ n, (clock n).ReadsBack) (hm : m.Sound) (requests : List Request) :
    ((store clock).after m requests).Sound :=
  Store.after_induction _ hm fun _ r _ hm => (issued hm r).sound hclock hm

/-- **Requests lead to later states.** -/
theorem since_after (hclock : ∀ n, (clock n).ReadsBack) (hm : m.Sound) (requests : List Request) :
    Since m ((store clock).after m requests) := by
  refine (Store.after_induction (p := fun s : Memory => s.Sound ∧ Since m s) _ ⟨hm, .refl m⟩ ?_).2
  exact fun s r _ ⟨hs, hsince⟩ =>
    ⟨(issued hs r).sound hclock hs, hsince.trans ((issued hs r).since hclock hs)⟩

theorem sound_empty : Sound {} := fun _ _ hj => by cases hj

/-- **A key that was changed has a newer version** than any that was given before the
change, as long as something is there. -/
theorem newer_after (hclock : ∀ n, (clock n).ReadsBack) (hm : m.Sound) {c : Request}
    (hc : c ∈ (store clock).succeeded m requests) (htarget : c.target? = some key) {o : Object k}
    (ho : ((store clock).after m requests).Holds o) (hkey : o.key = key) :
    ∃ n, m.lastVersion < n ∧ o.metadata.resourceVersion = some (Text.decimal n) := by
  obtain ⟨before, later, copies, rfl, hgives⟩ := (Store.mem_succeeded _).mp hc
  have hbefore := sound_after hclock hm before
  have hlower := (since_after hclock hm before).later
  rw [Store.after_append, Store.after_cons] at ho
  have hissued : Issued clock _ c _ _ := issued hbefore c
  rw [show (c.issue (store clock) ((store clock).after m before)).result = .ok copies from hgives]
    at hissued
  obtain ⟨j, hj, hd⟩ := ho
  subst hkey
  -- what is there was there after the change, or has been written since
  rcases (since_after hclock (hissued.sound hclock hbefore) later).cells _ _ hj with
    hold | ⟨n, hn, -, hwritten⟩
  · obtain ⟨n, hn, hwritten⟩ := hissued.newer hclock hbefore htarget hold
    exact ⟨n, Nat.lt_of_le_of_lt hlower hn, hwritten.version hd⟩
  · have hlater := (hissued.since hclock hbefore).later
    exact ⟨n, by omega, hwritten.version hd⟩

/-- **An object keeps its time of creation** for as long as no deletion succeeds. -/
theorem existsSince_after (hclock : ∀ n, (clock n).ReadsBack) (hm : m.Sound)
    {created : Option Timestamp} (hexists : m.ExistsSince key created)
    (hreadable : ∀ r ∈ requests, r.Readable)
    (hkept : .delete key ∉ (store clock).succeeded m requests) :
    ((store clock).after m requests).ExistsSince key created := by
  induction requests using List.reverseRecOn with
  | nil => exact hexists
  | append_singleton requests r ih =>
    rw [List.forall_mem_append, List.forall_mem_singleton] at hreadable
    have ih := ih hreadable.1 fun hmem =>
      hkept (Store.succeeded_append .. ▸ List.mem_append_left _ hmem)
    rw [Store.after_append_singleton]
    have hbefore := sound_after hclock hm requests
    refine (issued hbefore r).existsSince hbefore hreadable.2 (fun hr => ?_) ih
    subst hr
    cases hresult : ((Request.delete key).issue (store clock)
        ((store clock).after m requests)).result with
    | error e => exact ⟨e, rfl⟩
    | ok copies =>
      exact absurd ((Store.mem_succeeded _).mpr ⟨requests, [], copies, rfl, hresult⟩) hkept

theorem legible_after (hclock : ∀ n, (clock n).ReadsBack)
    (hreadable : ∀ r ∈ requests, r.Readable) : ((store clock).after {} requests).Legible := by
  refine (Store.after_induction (p := fun s : Memory => s.Sound ∧ s.Legible) _
    ⟨sound_empty, fun _ _ hj => by cases hj⟩ ?_).2
  exact fun s r hr ⟨hs, hlegible⟩ => ⟨(issued hs r).sound hclock hs,
    (issued hs r).legible hclock hs (hreadable r hr) hlegible⟩

theorem distinct_after (hclock : ∀ n, (clock n).ReadsBack) (requests : List Request) :
    ((store clock).after {} requests).Distinct := by
  refine (Store.after_induction (p := fun s : Memory => (s.Sound ∧ Since {} s) ∧ s.Distinct) _
    ⟨⟨sound_empty, .refl {}⟩, fun _ _ ⟨_, hj, _⟩ => by cases hj⟩ ?_).2
  intro s r _ ⟨⟨hs, hsince⟩, hdistinct⟩
  have hissued : Issued clock s r _ _ := issued hs r
  exact ⟨⟨hissued.sound hclock hs, hsince.trans (hissued.since hclock hs)⟩,
    hissued.distinct hclock hs hsince hdistinct⟩

/-- A request that gave copies was answered at its place in the run. -/
theorem issued_of_gives (hclock : ∀ n, (clock n).ReadsBack) {before : List Request}
    {copies : List Copy} (h : (store clock).Gives {} before r copies) :
    Issued clock ((store clock).after {} before) r (.ok copies)
      ((store clock).after {} (before ++ [r])) := by
  have hissued : Issued clock _ r _ _ := issued (sound_after hclock sound_empty before) r
  rw [show (r.issue (store clock) ((store clock).after {} before)).result = .ok copies from h,
    ← Store.after_append_singleton] at hissued
  exact hissued

theorem since_empty (hclock : ∀ n, (clock n).ReadsBack) (requests : List Request) :
    Since {} ((store clock).after {} requests) := since_after hclock sound_empty requests

/-- **Later writes get later versions.** -/
theorem version_ne_of_writes (hclock : ∀ n, (clock n).ReadsBack) {before between : List Request}
    {r' : Request} {copies copies' : List Copy} (hwrite : r.isWrite = true)
    (hwrite' : r'.isWrite = true) (h : (store clock).Gives {} before r copies)
    (h' : (store clock).Gives {} (before ++ r :: between) r' copies') {c c' : Copy}
    (hc : c ∈ copies) (hc' : c' ∈ copies') : c.version ≠ c'.version := by
  obtain ⟨hversion, hlast⟩ := (issued_of_gives hclock h).version_of_write hwrite hc
  obtain ⟨hversion', -⟩ := (issued_of_gives hclock h').version_of_write hwrite' hc'
  have hlater := (since_after hclock (sound_after hclock sound_empty (before ++ [r])) between).later
  rw [← Store.after_append, List.append_assoc, List.singleton_append] at hlater
  intro heq
  rw [hversion, hversion'] at heq
  have := Text.decimal_injective (Option.some.inj heq)
  omega

/-- **An update with a copy fails once the key has been changed.** -/
theorem unchanged_of_update (hclock : ∀ n, (clock n).ReadsBack) {before between : List Request}
    {u : Object k} {copies copies' : List Copy} (h : (store clock).Gives {} before r copies)
    {c : Copy} (hc : c ∈ copies) (hversion : c.version = u.metadata.resourceVersion)
    (h' : (store clock).Gives {} (before ++ r :: between) (.update k u) copies') {s : Request}
    (hs : s ∈ (store clock).succeeded ((store clock).after {} (before ++ [r])) between) :
    s.target? ≠ some u.key := by
  intro htarget
  obtain ⟨n, hn, hgiven⟩ := (issued_of_gives hclock h).given (since_empty hclock before) hc
  obtain ⟨stored, hreplaces⟩ := (issued_of_gives hclock h').exists_replaced
  obtain ⟨j, hj, hd⟩ := hreplaces.found
  have hsound := sound_after hclock sound_empty (before ++ r :: between)
  have hkey : stored.key = u.key := (hsound.key_of_decode hj hd).1
  have hstored : ((store clock).after {} (before ++ r :: between)).Holds stored :=
    ⟨j, hkey.symm ▸ hj, hd⟩
  rw [Store.after_append_cons] at hstored
  obtain ⟨n', hn', hnewer⟩ := newer_after hclock
    (sound_after hclock sound_empty (before ++ [r])) hs htarget hstored hkey
  have heq := version_of_checkVersion hreplaces.version (hversion.symm.trans hgiven)
  have := Text.decimal_injective (Option.some.inj (hnewer.symm.trans heq))
  omega

/-- Every entry is an object of its key, with a version that the counter has given. -/
theorem exists_entry (hclock : ∀ n, (clock n).ReadsBack) (hreadable : ∀ r ∈ requests, r.Readable)
    {j : Json} (hj : ((store clock).after {} requests).cell key = some j) :
    ∃ o : Object key.kind, decode key.kind j = .ok o ∧ o.key = key
      ∧ ∃ n, 1 ≤ n ∧ n ≤ ((store clock).after {} requests).lastVersion
        ∧ o.metadata.resourceVersion = some (Text.decimal n) := by
  obtain ⟨o, hd⟩ := legible_after hclock hreadable key j hj
  have hkey := ((sound_after hclock sound_empty requests).key_of_decode hj hd).1
  rcases (since_empty hclock requests).cells key j hj with hnone | ⟨n, hlower, hupper, hwritten⟩
  · cases hnone
  · have hwritten : WrittenAt n o.key j := hkey ▸ hwritten
    exact ⟨o, hd, hkey, n, hlower, hupper, hwritten.version hd⟩

/-- **A listing succeeds and is ordered by name**, if all cells can be read. -/
theorem exists_list (hm : m.Sound) (hlegible : m.Legible) (k : Kind) (namespaceName : String)
    (selector : Selector) :
    ∃ os, m.list k namespaceName selector = .ok os
      ∧ (∀ o, o ∈ os ↔ m.Holds o ∧ o.namespaceName = namespaceName
        ∧ selector.accepts o.labels = true)
      ∧ (os.map Object.name).Pairwise (· < ·) := by
  obtain ⟨os, hlist⟩ := list_eq_ok_iff.mpr fun name j hj => hlegible ⟨k, namespaceName, name⟩ j hj
  refine ⟨os, hlist, mem_list hm hlist, ?_⟩
  have hsorted := sorted_list hm hlist
  rw [List.pairwise_map] at hsorted ⊢
  refine hsorted.imp_of_mem fun {a b} ha hb hlt => ?_
  have hnamespace : a.namespaceName = b.namespaceName :=
    ((mem_list hm hlist a).mp ha).2.1.trans ((mem_list hm hlist b).mp hb).2.1.symm
  have hlt : (⟨k, a.namespaceName, a.name⟩ : ObjectKey) < ⟨k, b.namespaceName, b.name⟩ := hlt
  rw [hnamespace] at hlt
  exact ObjectKey.name_lt_of_lt hlt

end Runs

/-! ## What clients may rely on -/

/-- **What clients may rely on** who have sent some requests to an empty store. -/
structure Consistent (clock : Nat → Timestamp) (requests : List Request) : Prop where
  /-- Every entry can be read as an object of its key, with a version that the counter has
  given. -/
  entries : ∀ key j, ((store clock).after {} requests).cell key = some j →
    ∃ o : Object key.kind, decode key.kind j = .ok o ∧ o.key = key
      ∧ ∃ n, 1 ≤ n ∧ n ≤ ((store clock).after {} requests).lastVersion
        ∧ o.metadata.resourceVersion = some (Text.decimal n)
  distinct : ((store clock).after {} requests).Distinct
  /-- No version is given twice. -/
  fresh : ∀ before r between r' later copies copies',
    requests = before ++ r :: between ++ r' :: later → r.isWrite = true → r'.isWrite = true →
    (store clock).Gives {} before r copies →
    (store clock).Gives {} (before ++ r :: between) r' copies' →
    ∀ c ∈ copies, ∀ c' ∈ copies', c.version ≠ c'.version
  /-- An update with the version of a copy succeeds only if the key has not been changed since
  the copy was given. -/
  guarded : ∀ before r between (u : Copy) later copies copies',
    requests = before ++ r :: between ++ .update u.1 u.2 :: later →
    (store clock).Gives {} before r copies →
    (∃ c ∈ copies, c.key = u.key ∧ c.version = u.version) →
    (store clock).Gives {} (before ++ r :: between) (.update u.1 u.2) copies' →
    ∀ s ∈ (store clock).succeeded ((store clock).after {} (before ++ [r])) between,
      s.target? ≠ some u.key
  /-- The time of creation that is given for a new object stays, until it is deleted. -/
  creation : ∀ before (o : Copy) between later copies,
    requests = before ++ .create o.1 o.2 :: between ++ later →
    (store clock).Gives {} before (.create o.1 o.2) copies →
    .delete o.key ∉ (store clock).succeeded
      ((store clock).after {} (before ++ [.create o.1 o.2])) between →
    ∃ c ∈ copies, ((store clock).after {} (before ++ .create o.1 o.2 :: between)).ExistsSince o.key
      c.2.metadata.creationTimestamp
  /-- A listing gives what is held and accepted, in strict order of the names. -/
  listed : ∀ k namespaceName selector, ∃ os : List (Object k),
    ((store clock).list k namespaceName selector ((store clock).after {} requests)).result = .ok os
      ∧ (∀ o, o ∈ os ↔ ((store clock).after {} requests).Holds o ∧ o.namespaceName = namespaceName
        ∧ selector.accepts o.labels = true)
      ∧ (os.map Object.name).Pairwise (· < ·)
  /-- A request that fails, or only looks, changes nothing. -/
  unchanged : ∀ r : Request,
    ((∃ e, (r.issue (store clock) ((store clock).after {} requests)).result = .error e)
      ∨ r.target? = none) →
    (r.issue (store clock) ((store clock).after {} requests)).state
      = (store clock).after {} requests
  /-- A change is counted once. -/
  counted : ∀ r copies key, r.target? = some key → (store clock).Gives {} requests r copies →
    ((store clock).after {} (requests ++ [r])).mutations
      = ((store clock).after {} requests).mutations + 1

/-- **A store in memory is consistent**, whatever is asked of it. -/
theorem consistent (hclock : ∀ n, (clock n).ReadsBack) (hreadable : ∀ r ∈ requests, r.Readable) :
    Consistent clock requests where
  entries key j hj := exists_entry hclock hreadable hj
  distinct := distinct_after hclock requests
  fresh before r between r' later copies copies' _ hwrite hwrite' h h' c hc c' hc' :=
    version_ne_of_writes hclock hwrite hwrite' h h' hc hc'
  guarded before r between u later copies copies' _ h hc h' s hs := by
    obtain ⟨c, hc, -, hversion⟩ := hc
    exact unchanged_of_update hclock h hc hversion h' hs
  creation before o between later copies heq h hkept := by
    subst heq
    simp only [List.forall_mem_append, List.forall_mem_cons] at hreadable
    obtain ⟨⟨-, ho, hbetween⟩, -⟩ := hreadable
    obtain ⟨c, hc, hexists⟩ := (issued_of_gives hclock h).existsSince_of_created hclock ho
    refine ⟨c, hc, ?_⟩
    rw [Store.after_append_cons]
    exact existsSince_after hclock (sound_after hclock sound_empty _) hexists hbetween hkept
  listed k namespaceName selector :=
    exists_list (sound_after hclock sound_empty requests) (legible_after hclock hreadable) k
      namespaceName selector
  unchanged r hr := by
    have hissued : Issued clock _ r _ _ := issued (sound_after hclock sound_empty requests) r
    rcases hr with ⟨e, he⟩ | hlook
    · rw [he] at hissued
      exact hissued.state_of_error
    · exact hissued.state_of_look hlook
  counted r copies key htarget h := (issued_of_gives hclock h).mutations_of_change htarget

/-- A source that is created again has another version, and an update with the old one is
refused. -/
theorem consistent_after_recreation :
    (∀ r ∈ madeAgain, r.Readable) ∧ Consistent (fun _ => noon) madeAgain
      ∧ ((store fun _ => noon).answers {} madeAgain).map
          (fun answer => answer.toOption.map fun copies => copies.map Copy.version)
        = [some [some "1"], some [], some [some "2"], none] :=
  ⟨readable_madeAgain, consistent (fun _ => readsBack_noon) readable_madeAgain,
    by decide +kernel⟩

end Memory

end PlanSync
