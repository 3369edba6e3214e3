import PlanSync.Proofs.Pass.Course

/-!
# What a pass leaves alone

A pass changes only what its template owns, and adds only what derivation asks
for (`Pass.touches_owned_only`). This holds at every moment of a pass, whatever
order its calls come in, whichever of them fail, and whenever it is cancelled:
ownership is decided once, from the labels of the objects listed, and every step
of the plan is about an object that is owned or about a derived name that was
free.
-/

namespace PlanSync.Pass

variable {clock : Nat → Timestamp} {i : Input} {m₀ m : Memory} {wanted : DesiredState}
  {owned : OwnedObjects} {events : List Event}

/-- **Nothing owned stands under a key**: what stands there, if it can be read at
all, is in another namespace, lacks an owner label, or is the template or the
source itself. -/
def Spares (i : Input) (m : Memory) (key : ObjectKey) : Prop :=
  ∀ o : Object key.kind, m.Holds o → o.key = key → ¬ i.Owns o

theorem not_spares_of_update (hm : m.Sound) (hs : Surveyed i m wanted owned) {k : Kind}
    {current updated : Object k} (hstep : Plan.Planned wanted owned (.update k current updated)) :
    ¬ Spares i m (Step.update k current updated).key := by
  cases hstep with
  | update _ _ ho _ =>
    obtain ⟨hholds, howns, -⟩ := (hs.half_iff hm).mp ho
    exact fun hspares => hspares current hholds rfl howns

theorem not_spares_of_delete (hm : m.Sound) (hs : Surveyed i m wanted owned) {s : Step}
    (hstep : Plan.Planned wanted owned s) (hop : s.operation = .delete) :
    ¬ Spares i m s.key := by
  cases s with
  | create k o => cases hop
  | update k o o' => cases hop
  | delete key =>
    obtain ⟨o, hholds, howns, hkey⟩ := Plan.holds_of_delete hm hs hstep
    exact fun hspares => hspares o hholds hkey howns

/-- **What is not owned stays as it was.** -/
theorem cell_of_spares (hm₀ : m₀.Sound) (hs : Surveyed i m₀ wanted owned) {key : ObjectKey}
    {j : Json} (hkept : Kept m₀ (.compute wanted owned) m key) (hj : m₀.cell key = some j)
    (hspares : Spares i m₀ key) : m.cell key = some j := by
  rcases hkept with hsame | ⟨s, hmem, rfl, -, hfree⟩
  · exact hsame.trans hj
  · have hstep := Plan.mem_steps.mp hmem
    cases s with
    | create k o =>
      rcases hfree rfl with hnone | ⟨d, hd, hdelete, hkey⟩
      · cases hnone.symm.trans hj
      · rw [← hkey] at hspares
        exact absurd hspares (not_spares_of_delete hm₀ hs (Plan.mem_steps.mp hd) hdelete)
    | update k o o' => exact absurd hspares (not_spares_of_update hm₀ hs hstep)
    | delete key => exact absurd hspares (not_spares_of_delete hm₀ hs hstep rfl)

/-- **What is new is derived.** -/
theorem derived_of_new (hm₀ : m₀.Sound) (hs : Surveyed i m₀ wanted owned) {key : ObjectKey}
    {j : Json} (hkept : Kept m₀ (.compute wanted owned) m key) (hnone : m₀.cell key = none)
    (hj : m.cell key = some j) :
    ∃ id ∈ wanted.pairs.keys, key = i.derivedKey key.kind id
      ∧ ∃ o : Object key.kind, o.key = key ∧ o.StoredAs j ∧ i.Bears o := by
  rcases hkept with hsame | ⟨s, hmem, rfl, hleaves, -⟩
  · cases hnone.symm.trans (hsame.symm.trans hj)
  · have hstep := Plan.mem_steps.mp hmem
    rw [hj] at hleaves
    cases hstep with
    | @create id pair k hp hfree =>
      obtain ⟨j', hj', hstored⟩ := hleaves
      cases hj'
      exact ⟨id, SortedMap.mem_keys_iff.mpr ⟨pair, hp⟩, Input.key_half hs.derived hp k,
        pair.half k, rfl, hstored, Input.bears_half hs.derived hp k⟩
    | @update id pair k o hp ho hd =>
      obtain ⟨⟨j', hj', -⟩, -, -⟩ := (hs.half_iff hm₀).mp ho
      have hnone' : m₀.cell o.key = none := hnone
      cases hnone'.symm.trans hj'
    | remove => cases hleaves
    | clear => cases hleaves

/-- What is not owned stays as it was, at every moment of a pass. -/
theorem Reached.cell_of_spares {r : Run Memory} (hm₀ : m₀.Sound) (h : Reached i m₀ events r)
    {key : ObjectKey} {j : Json} (hj : m₀.cell key = some j) (hspares : Spares i m₀ key) :
    r.state.cell key = some j := by
  cases h with
  | applying _ h => exact Pass.cell_of_spares hm₀ h.surveyed (h.follows.kept key) hj hspares
  | begun | listing | refused => exact hj

/-- What is new is derived, at every moment of a pass. -/
theorem Reached.derived_of_new {r : Run Memory} (hm₀ : m₀.Sound) (h : Reached i m₀ events r)
    {key : ObjectKey} {j : Json} (hnone : m₀.cell key = none) (hj : r.state.cell key = some j) :
    ∃ wanted, i.derive? = some wanted ∧ ∃ id ∈ wanted.pairs.keys,
      key = i.derivedKey key.kind id
        ∧ ∃ o : Object key.kind, o.key = key ∧ o.StoredAs j ∧ i.Bears o := by
  cases h with
  | applying _ h =>
    exact ⟨_, h.surveyed.derived,
      Pass.derived_of_new hm₀ h.surveyed (h.follows.kept key) hnone hj⟩
  | begun | listing | refused => cases hnone.symm.trans hj

/-- **Only what is owned was touched.** What was stored is stored unchanged,
unless it was owned: unless it was in the namespace of the template, bore both
owner labels, and was neither the template nor the source. And what is stored
only now has a derived name of a branch that is desired, and bears the owner
labels. -/
structure TouchedOwnedOnly (i : Input) (m m' : Memory) : Prop where
  kept : ∀ key j, m.cell key = some j →
    (∀ o : Object key.kind, Memory.decode key.kind j = .ok o →
      o.namespaceName ≠ i.template.namespaceName
        ∨ o.labels.get? ownerLabel ≠ some "true"
        ∨ o.labels.get? templateLabel ≠ some i.template.name
        ∨ o.namespaceName = (i.origin key.kind).namespaceName
          ∧ o.name = (i.origin key.kind).name) →
    m'.cell key = some j
  new : ∀ key j, m.cell key = none → m'.cell key = some j →
    ∃ wanted, i.derive? = some wanted ∧ ∃ id ∈ wanted.pairs.keys,
      key = i.derivedKey key.kind id
        ∧ ∃ o : Object key.kind, o.key = key ∧ o.StoredAs j ∧ i.Bears o

/-- **A pass touches only what its template owns**, at every moment and so at
the end, in whatever order its calls come, whichever of them fail, and whenever
it is cancelled. -/
theorem touches_owned_only (hclock : ∀ n, (clock n).ReadsBack) {m : Memory}
    (hm : Memory.Reachable clock m) (i : Input) (events : List Event) :
    TouchedOwnedOnly i m (Run.inMemory clock i m events).state := by
  have hsound := hm.sound hclock
  have hreached := Reached.inMemory hclock hsound i events
  refine ⟨fun key j hj hnot => hreached.cell_of_spares hsound hj ?_,
    fun key j hnone hj => hreached.derived_of_new hsound hnone hj⟩
  intro o ⟨j', hj', hd⟩ hkey howns
  rw [hkey, hj] at hj'
  cases hj'
  rcases hnot o hd with hns | hmarker | htemplate | hself
  · exact hns howns.here
  · exact hmarker howns.bears.marker
  · exact htemplate howns.bears.template
  · exact howns.other hself

/-- One unit is cancelled and the other is kept from deleting the stray. -/
theorem touches_owned_only_when_cancelled :
    TouchedOwnedOnly sampleInput strayedMemory
      (Run.inMemory stoppedClock sampleInput strayedMemory
        [.turn 0, .turn 0, .fault 1 (.transient "busy"), .cancel, .turn 0]).state :=
  touches_owned_only readsBack_stoppedClock reachable_strayedMemory sampleInput _

end PlanSync.Pass
