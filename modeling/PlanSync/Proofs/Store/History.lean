import PlanSync.Proofs.PullRequest
import PlanSync.Proofs.Store.Memory

/-!
# The history of a store in memory

All writes take their versions from one counter, which only grows. So a version
names one write, over all keys and over all deletions: what stands in a store is
what stood in an earlier one, or it has a version that the earlier one had not
given yet (`Memory.Since`). If an object that is held has the version of an
object that was held under its key, then the two are equal, whatever calls came
in between (`Memory.Since.eq_of_version`).
-/

namespace PlanSync

namespace Memory

variable {clock : Nat → Timestamp} {m₀ m m' : Memory} {k : Kind}

/-! ## Edits -/

/-- **An edit**: a call that may change a store. -/
inductive Edit where
  | create (k : Kind) (o : Object k)
  | update (k : Kind) (o : Object k)
  | delete (key : ObjectKey)

namespace Edit

/-- The store after an edit, whether it succeeds or fails. -/
def apply (clock : Nat → Timestamp) (m : Memory) : Edit → Memory
  | create k o => ((store clock).create k o m).state
  | update k o => ((store clock).update k o m).state
  | delete key => ((store clock).delete key.kind key.namespaceName key.name m).state

/-- The object that an edit writes, if it succeeds. -/
def object? : Edit → Option (Σ k, Object k)
  | create k o => some ⟨k, o⟩
  | update k o => some ⟨k, o⟩
  | delete _ => none

/-- **An edit changes nothing, empties a cell, or writes its object.** -/
theorem apply_cases (hclock : ∀ n, (clock n).ReadsBack) (hm : m.Sound) (e : Edit) :
    e.apply clock m = m ∨ (∃ key, e.apply clock m = m.drop key)
      ∨ ∃ k, ∃ o : Object k, ∃ created, e.object? = some ⟨k, o⟩
        ∧ (∀ t, created = some t → t.ReadsBack) ∧ e.apply clock m = (m.write o created).2 := by
  cases e with
  | create k o =>
    rcases create_cases clock m o with ⟨-, h⟩ | ⟨-, e, h⟩
    · exact .inr (.inr ⟨k, o, _, rfl, fun t ht => Option.some.inj ht ▸ hclock _,
        congrArg Outcome.state h⟩)
    · exact .inl (congrArg Outcome.state h)
  | update k o =>
    rcases update_cases clock m o with ⟨stored, hr, h⟩ | ⟨-, e, h⟩
    · obtain ⟨j, hj, hd⟩ := hr.found
      exact .inr (.inr ⟨k, o, _, rfl, (hm.key_of_decode hj hd).2, congrArg Outcome.state h⟩)
    · exact .inl (congrArg Outcome.state h)
  | delete key =>
    rcases delete_cases clock m key with ⟨-, h⟩ | ⟨-, h⟩
    · exact .inr (.inl ⟨key, congrArg Outcome.state h⟩)
    · exact .inl (congrArg Outcome.state h)

/-- **An edit writes** an object under a key: it succeeds. -/
def Writes (clock : Nat → Timestamp) (m : Memory) (key : ObjectKey) (e : Edit) : Prop :=
  ∃ o created, e.object? = some o ∧ o.2.key = key ∧ e.apply clock m = (m.write o.2 created).2

end Edit

/-- Edits lead from reachable states to reachable ones. -/
theorem Reachable.edit (h : Reachable clock m) (e : Edit) : Reachable clock (e.apply clock m) := by
  cases e with
  | create k o => exact h.create k o
  | update k o => exact h.update k o
  | delete key => exact h.delete key.kind key.namespaceName key.name

theorem Reachable.edits (h : Reachable clock m) (edits : List Edit) :
    Reachable clock (edits.foldl (Edit.apply clock) m) := by
  induction edits generalizing m with
  | nil => exact h
  | cons e edits ih => exact ih (h.edit e)

/-! ## Versions -/

/-- **What was written at a count of the counter**: the stored form of an object
with the key of the cell and with that version. -/
def WrittenAt (n : Nat) (key : ObjectKey) (j : Json) : Prop :=
  ∃ o : Object key.kind, o.key = key ∧ o.CreationReadsBack
    ∧ o.metadata.resourceVersion = some (Text.decimal n) ∧ j = o.toJson.sortKeys

/-- **The version of an object tells when it was written.** -/
theorem WrittenAt.version {n : Nat} {o : Object k} {j : Json} (h : WrittenAt n o.key j)
    (hd : decode k j = .ok o) : o.metadata.resourceVersion = some (Text.decimal n) := by
  obtain ⟨o', -, hc, hversion, rfl⟩ := h
  rw [Object.metadata_of_decoder_stored hc (decode_eq_ok.mp hd)]
  exact hversion

theorem writtenAt_write {o : Object k} {created : Option Timestamp}
    (hc : ∀ t, created = some t → t.ReadsBack) :
    WrittenAt (m.lastVersion + 1) o.key
      (o.stamped (some (Text.decimal (m.lastVersion + 1))) created).toJson.sortKeys :=
  ⟨o.stamped _ created, rfl, hc, rfl, rfl⟩

/-- **A store has come from another one**: what stands in a cell stood there then,
or was written since. -/
structure Since (m₀ m : Memory) : Prop where
  later : m₀.lastVersion ≤ m.lastVersion
  cells : ∀ key j, m.cell key = some j → m₀.cell key = some j
    ∨ ∃ n, m₀.lastVersion < n ∧ n ≤ m.lastVersion ∧ WrittenAt n key j

namespace Since

theorem refl (m : Memory) : Since m m := ⟨Nat.le_refl _, fun _ _ hj => .inl hj⟩

theorem trans (h : Since m₀ m) (h' : Since m m') : Since m₀ m' where
  later := Nat.le_trans h.later h'.later
  cells key j hj := by
    rcases h'.cells key j hj with hj | ⟨n, hlower, hupper, hwritten⟩
    · exact (h.cells key j hj).imp_right fun ⟨n, hlower, hupper, hwritten⟩ =>
        ⟨n, hlower, Nat.le_trans hupper h'.later, hwritten⟩
    · exact .inr ⟨n, Nat.lt_of_le_of_lt h.later hlower, hupper, hwritten⟩

theorem drop (m : Memory) (key : ObjectKey) : Since m (m.drop key) where
  later := Nat.le_refl _
  cells l j hj := by
    rw [cell_drop] at hj
    split at hj
    · cases hj
    · exact .inl hj

theorem write (m : Memory) (o : Object k) {created : Option Timestamp}
    (hc : ∀ t, created = some t → t.ReadsBack) : Since m (m.write o created).2 where
  later := Nat.le_succ _
  cells l j hj := by
    rw [cell_write] at hj
    split at hj
    · next hl =>
      subst hl
      cases hj
      exact .inr ⟨m.lastVersion + 1, Nat.lt_succ_self _, Nat.le_refl _, writtenAt_write hc⟩
    · exact .inl hj

theorem edit (hclock : ∀ n, (clock n).ReadsBack) (hm : m.Sound) (e : Edit) :
    Since m (e.apply clock m) := by
  rcases e.apply_cases hclock hm with h | ⟨key, h⟩ | ⟨k, o, created, -, hc, h⟩
  · rw [h]
    exact .refl m
  · rw [h]
    exact .drop m key
  · rw [h]
    exact .write m o hc

end Since

/-- **Every reachable state has come from the empty store.** -/
theorem Reachable.since (hclock : ∀ n, (clock n).ReadsBack) (h : Reachable clock m) :
    Since {} m := by
  induction h with
  | empty => exact .refl {}
  | create h k o ih => exact ih.trans (.edit hclock (h.sound hclock) (.create k o))
  | update h k o ih => exact ih.trans (.edit hclock (h.sound hclock) (.update k o))
  | delete h k namespaceName name ih =>
    exact ih.trans (.edit hclock (h.sound hclock) (.delete ⟨k, namespaceName, name⟩))

/-- **Every object that is held has a version**, which the counter has reached. -/
theorem Since.exists_version (hm : Since {} m) {o : Object k} (ho : m.Holds o) :
    ∃ n, n ≤ m.lastVersion ∧ o.metadata.resourceVersion = some (Text.decimal n) := by
  obtain ⟨j, hj, hd⟩ := ho
  rcases hm.cells _ _ hj with hnone | ⟨n, -, hn, hwritten⟩
  · cases hnone
  · exact ⟨n, hn, hwritten.version hd⟩

/-- **A version names one write.** If an object is held with the version of an
object that was held under its key, then nothing was written there since. -/
theorem Since.eq_of_version (hm₀ : Since {} m₀) (h : Since m₀ m) {o o' : Object k}
    (ho : m₀.Holds o) (ho' : m.Holds o') (hkey : o'.key = o.key)
    (hversion : o'.metadata.resourceVersion = o.metadata.resourceVersion) : o' = o := by
  obtain ⟨j', hj', hd'⟩ := ho'
  rcases h.cells _ _ hj' with hold | ⟨n', hlater, -, hwritten'⟩
  · exact Holds.unique ⟨j', hold, hd'⟩ ho hkey
  -- the later object has a version that had not been given when the earlier one
  -- was held
  · obtain ⟨n, hearlier, hn⟩ := hm₀.exists_version ho
    rw [hwritten'.version hd', hn, Option.some_inj] at hversion
    have heq := Text.decimal_injective hversion
    omega

end Memory

end PlanSync
