import PlanSync.Proofs.Pass.Settled

/-!
# Complete passes

A pass that succeeds has made its template own exactly what derivation asks for
(`Pass.complete_of_ok`): one configuration and one source for each branch id of
a pull request into the tracked branch, and each with the spec, the labels and
the annotations derived for it.

Success means that no unit failed and none is left with a step, so that every
step of the plan has been applied; what that makes of the store is said by
`Pass.Aftermath`.
-/

namespace PlanSync.Pass

variable {clock : Nat → Timestamp} {i : Input} {m₀ m : Memory} {wanted : DesiredState}
  {owned : OwnedObjects} {units : List UnitRun} {events : List Event} {k : Kind}

/-! ## All steps -/

/-- **If no unit has a step left, all steps have been applied.** -/
theorem Applying.applied_of_remaining (hfaultless : Faultless events)
    (h : Applying i m₀ events wanted owned units m) (hdone : ∀ u ∈ units, u.remaining = []) :
    Memory.Applied m₀ (Plan.compute wanted owned).steps m := by
  obtain ⟨done, hperm, happlied⟩ := h.progressed hfaultless
  have hpending : pending units = [] := List.flatMap_eq_nil_iff.mpr hdone
  rw [hpending, List.append_nil] at hperm
  exact happlied.perm hperm

theorem Applying.aftermath (hm₀ : m₀.Sound) (hi : i.Readable) (hfaultless : Faultless events)
    (h : Applying i m₀ events wanted owned units m) (hdone : ∀ u ∈ units, u.remaining = []) :
    Aftermath i m₀ wanted owned (Plan.compute wanted owned).steps m :=
  ⟨hm₀, hi, h.surveyed, fun _ hs => Plan.mem_steps.mp hs,
    h.applied_of_remaining hfaultless hdone⟩

/-- All steps that a half needed are among those of the plan. -/
theorem Aftermath.exists_half_of_all {id : BranchId} {pair : DesiredPair}
    (h : Aftermath i m₀ wanted owned (Plan.compute wanted owned).steps m)
    (hp : wanted.pairs.get? id = some pair) (k : Kind) :
    ∃ o : Object k, m.Holds o ∧ o.key = i.derivedKey k id ∧ Converged o (pair.half k) :=
  h.exists_half hp fun _ hs => Plan.mem_steps.mpr (Plan.planned_of_converge? hp hs)

theorem nodup_derivedKeys (i : Input) (k : Kind) (ids : SortedMap BranchId DesiredPair) :
    (ids.keys.map (i.derivedKey k)).Nodup :=
  List.pairwise_map.mpr (ids.nodup_keys.imp fun hne heq =>
    hne (Input.derivedKey_injective heq).2)

/-- **What is owned when all steps have been applied**: the halves of the desired
pairs, each once. -/
theorem Aftermath.keys_perm (h : Aftermath i m₀ wanted owned (Plan.compute wanted owned).steps m)
    (hm : m.Sound) {os : List (Object k)} (hos : i.listing m k = .ok os) :
    ((os.filter fun o => ¬ (o.namespaceName = (i.origin k).namespaceName
      ∧ o.name = (i.origin k).name)).map Object.key).Perm
        (wanted.pairs.keys.map (i.derivedKey k)) := by
  -- no key comes twice on either side, so it is enough to compare members
  refine (List.perm_ext_iff_of_nodup ?_ (nodup_derivedKeys i k wanted.pairs)).mpr fun key => ?_
  · exact (List.filter_sublist.map Object.key).nodup (Memory.nodup_list hm hos)
  · rw [List.mem_map, List.mem_map]
    constructor
    · rintro ⟨o, ho, rfl⟩
      obtain ⟨ho, hother⟩ := List.mem_filter.mp ho
      obtain ⟨hholds, hns, hbears⟩ := (Input.mem_listing hm hos o).mp ho
      have howns : i.Owns o := ⟨hns, hbears, of_decide_eq_true hother⟩
      obtain ⟨id, pair, hp, hkey⟩ := h.exists_pair_of_owned
        (fun s hs _ => Plan.mem_steps.mpr hs) hholds howns
      exact ⟨id, SortedMap.mem_keys_iff.mpr ⟨pair, hp⟩, hkey.symm⟩
    · rintro ⟨id, hid, rfl⟩
      obtain ⟨pair, hp⟩ := SortedMap.mem_keys_iff.mp hid
      obtain ⟨o, hholds, hkey, hconverged⟩ := h.exists_half_of_all hp k
      have howns := owns_of_covers h.surveyed.derived hp hkey hconverged.covers
      refine ⟨o, List.mem_filter.mpr ⟨(Input.mem_listing hm hos o).mpr
        ⟨hholds, howns.here, howns.bears⟩, decide_eq_true howns.other⟩, hkey⟩

/-! ## Success -/

/-- **A pass that succeeds has no unit with a step left**, and skipped nothing. -/
theorem Reached.of_ok {r : Run Memory} {summary : ApplySummary} (h : Reached i m₀ events r)
    (hok : r.stage.result? i = some (.ok summary)) :
    ∃ wanted owned units, Applying i m₀ events wanted owned units r.state
      ∧ (∀ u ∈ units, u.remaining = []) ∧ wanted.skipped = [] := by
  obtain ⟨_, units, hstage, hdone, hskipped⟩ := Stage.applying_of_ok hok
  cases h with
  | begun | listing | refused => cases hstage
  | @applying wanted owned _ m _ h =>
    cases hstage
    exact ⟨wanted, owned, units, h, hdone, hskipped⟩

/-- **A store has everything that was asked for.** The branch ids are those of
the pull requests that target the tracked branch. For either kind, the objects
that bear the owner labels in the namespace of the template, without the
template and the source themselves, are one for each branch id; and each has the
spec, the labels and the annotations that were derived for it. -/
structure Complete (i : Input) (wanted : DesiredState) (m : Memory) : Prop where
  ids : ∀ id, id ∈ wanted.pairs.keys ↔ ∃ pr, i.Targets pr ∧ pr.branchId = id
  owned : ∀ k, ∃ os,
    m.list k i.template.namespaceName (ownerSelector i.template.name) = .ok os
      ∧ ((os.filter fun o => ¬ (o.namespaceName = (i.origin k).namespaceName
          ∧ o.name = (i.origin k).name)).map Object.key).Perm
            (wanted.pairs.keys.map (i.derivedKey k))
      ∧ ∀ o ∈ os, ∀ id pair, wanted.pairs.get? id = some pair → o.key = i.derivedKey k id →
          o.Covers (pair.half k)

/-- **A pass that succeeds is complete**, in whatever order its calls came. -/
theorem complete_of_ok (hclock : ∀ n, (clock n).ReadsBack) {m : Memory}
    (hm : Memory.Reachable clock m) {i : Input} (hi : i.Readable) {events : List Event}
    (hfaultless : Faultless events) {summary : ApplySummary}
    (hok : (Run.inMemory clock i m events).stage.result? i = some (.ok summary)) :
    ∃ wanted, i.derive? = some wanted
      ∧ Complete i wanted (Run.inMemory clock i m events).state := by
  have hsound := hm.sound hclock
  obtain ⟨wanted, owned, units, h, hdone, hskipped⟩ :=
    (Reached.inMemory hclock hsound i events).of_ok hok
  have haftermath := h.aftermath hsound hi hfaultless hdone
  refine ⟨wanted, h.surveyed.derived, fun id => ?_, fun k => ?_⟩
  · rw [SortedMap.mem_keys_iff]
    constructor
    · rintro ⟨pair, hp⟩
      obtain ⟨pr, hpr, hid, -⟩ := Input.of_get?_pairs h.surveyed.derived hp
      exact ⟨pr, hpr, hid⟩
    · rintro ⟨pr, hpr, rfl⟩
      refine Input.exists_get?_pairs h.surveyed.derived hpr ?_
      refine Option.eq_none_iff_forall_ne_some.mpr fun bad hbad => ?_
      -- a pull request without a pair would have been skipped, which is a failure
      have hwhy := (Input.mem_skipped h.surveyed.derived).mpr ⟨pr, hpr, bad, hbad, rfl⟩
      rw [hskipped] at hwhy
      cases hwhy
  · obtain ⟨os, hos⟩ := Memory.list_eq_ok_iff.mpr (haftermath.readableIn k)
    refine ⟨os, hos, haftermath.keys_perm h.sound hos, fun o ho id pair hp hkey => ?_⟩
    obtain ⟨hholds, -, -⟩ := (Input.mem_listing h.sound hos o).mp ho
    obtain ⟨o', hholds', hkey', hconverged⟩ := haftermath.exists_half_of_all hp k
    obtain rfl : o' = o := hholds'.unique hholds (hkey'.trans hkey.symm)
    exact hconverged.covers

/-- A pass whose first unit waits until the stray is gone succeeds. -/
theorem complete_once_stray_is_gone :
    let r := Run.inMemory stoppedClock sampleInput strayedMemory ([0, 0, 1, 0, 0].map .turn)
    r.stage.result? sampleInput = some (.ok { created := 2, deleted := 1 })
      ∧ ∃ wanted, sampleInput.derive? = some wanted ∧ Complete sampleInput wanted r.state := by
  intro r
  have hok : r.stage.result? sampleInput = some (.ok { created := 2, deleted := 1 }) :=
    Answer.eq_ok_of_toOption (by decide +kernel)
  exact ⟨hok, complete_of_ok readsBack_stoppedClock reachable_strayedMemory readable_sampleInput
    (calm_turns _).faultless hok⟩

end PlanSync.Pass
