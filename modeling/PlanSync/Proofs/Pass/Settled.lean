import PlanSync.Proofs.Pass.Course

/-!
# What applied steps make of the owned objects

Steps of a plan have been applied to the store in which the plan was made, some
of them or all. An object that is owned afterwards is then of one of two sorts
(`Pass.Aftermath.old_or_new`): it was owned before and no step was about it, or a step
has written it, and then it is the half of a desired pair and has everything
that derivation asks for. The other way round, the half of a desired pair is
there and has all that, if the step that it needed, if any, was done
(`Pass.Aftermath.exists_half`).

What the steps leave can be read, so that the namespace can be listed again if
it could be listed before (`Pass.Aftermath.exists_surveyed`).
-/

namespace PlanSync.Pass

variable {i : Input} {m₀ m : Memory} {wanted : DesiredState} {owned : OwnedObjects}
  {done : List Step} {k : Kind} {id : BranchId} {pair : DesiredPair}

/-- **An object has converged** to a desired one: it covers it, and a pass finds
no more difference, if the desired one has the labels it records. -/
structure Converged (o desired : Object k) : Prop where
  covers : o.Covers desired
  settled : desired.metadata.Recorded → o.differsFrom desired = false

theorem converged_of_not_differs {o desired : Object k} (h : o.differsFrom desired = false) :
    Converged o desired :=
  ⟨Object.covers_of_not_differsFrom h, fun _ => h⟩

theorem converged_stamped (o : Object k) (version : Option String) (created : Option Timestamp) :
    Converged (o.stamped version created) o :=
  ⟨(Object.covers_self o).stamped version created, fun h =>
    (Object.differsFrom_stamped o o version created).trans (Object.not_differsFrom_self h)⟩

theorem converged_overwrite (current desired : Object k) (version : Option String)
    (created : Option Timestamp) :
    Converged ((current.overwrite desired).stamped version created) desired :=
  ⟨(Object.covers_overwrite current desired).stamped version created,
    fun h => (Object.differsFrom_stamped _ desired version created).trans
      (Object.not_differsFrom_overwrite h)⟩

/-! ## Halves of desired pairs -/

/-- **What covers a desired half under its key is owned.** -/
theorem owns_of_covers (hw : i.derive? = some wanted) (hp : wanted.pairs.get? id = some pair)
    {o : Object k} (hkey : o.key = i.derivedKey k id) (hcovers : o.Covers (pair.half k)) :
    i.Owns o where
  here := congrArg ObjectKey.namespaceName hkey
  bears :=
    have hbears := Input.bears_half hw hp k
    ⟨hcovers.labels _ _ hbears.marker, hcovers.labels _ _ hbears.template⟩
  other := Input.not_itself_of_key hkey

/-- **Pull requests whose ids can be told**: their head branches are not empty,
and their numbers are words of 64 bits, as all numbers of pull requests are. -/
structure Input.Telling (i : Input) : Prop where
  head : ∀ pr ∈ i.pullRequests, pr.headBranch ≠ ""
  number : ∀ pr ∈ i.pullRequests, pr.number < Text.wordBound

theorem telling_sampleInput : sampleInput.Telling where
  head := by decide
  number := by decide

/-- **What covers a desired half under its key is told to be of the branch.** -/
theorem standing_of_covers (htell : i.Telling) (hw : i.derive? = some wanted)
    (hp : wanted.pairs.get? id = some pair) {o : Object k} (hkey : o.key = i.derivedKey k id)
    (hcovers : o.Covers (pair.half k)) :
    OwnedObjects.standing (i.origin k) o = .ofBranch id := by
  obtain ⟨pr, hpr, rfl, hlabel⟩ := Input.pullRequestLabel_half hw hp k
  exact Input.standing_of_key hkey (hcovers.labels _ _ hlabel) (htell.head pr hpr.1)
    (htell.number pr hpr.1)

/-! ## What steps leave -/

namespace Surveyed

variable (hm₀ : m₀.Sound) (h : Surveyed i m₀ wanted owned)
include hm₀ h

/-- **No step is about a half that needs none.** -/
theorem key_ne_of_settled (hp : wanted.pairs.get? id = some pair) {current : Object k}
    (hcurrent : (owned.pairOf id).half k = some current)
    (hsettled : current.differsFrom (pair.half k) = false) {s : Step}
    (hstep : Plan.Planned wanted owned s) : s.key ≠ current.key := by
  -- a step about the object would be a step for the same half
  have hkey := h.key_half hm₀ hcurrent
  intro heq
  cases hstep with
  | create l hp' hnone =>
    obtain ⟨rfl, rfl⟩ := Input.derivedKey_injective
      ((Input.key_half h.derived hp' l).symm.trans (heq.trans hkey))
    cases hnone.symm.trans hcurrent
  | @update _ _ l o hp' ho hd =>
    have heq : o.key = current.key := heq
    obtain ⟨rfl, rfl⟩ := Input.derivedKey_injective
      ((h.key_half hm₀ ho).symm.trans (heq.trans hkey))
    cases ho.symm.trans hcurrent
    cases hp'.symm.trans hp
    cases hd.symm.trans hsettled
  | @remove _ l o hw ho =>
    have heq : o.key = current.key := heq
    obtain ⟨rfl, rfl⟩ := Input.derivedKey_injective
      ((h.key_half hm₀ ho).symm.trans (heq.trans hkey))
    cases hw.symm.trans hp
  | clear hstray => exact Plan.stray_ne_half hm₀ h hcurrent hstray heq.symm

/-- **A step that writes leaves an object that has converged.** -/
theorem exists_half_of_leaves (hi : i.Readable) {s : Step} (hs : Plan.Planned wanted owned s)
    (hop : s.operation ≠ .delete) (hleaves : s.Leaves (m.cell s.key)) :
    ∃ k id pair, ∃ o : Object k, wanted.pairs.get? id = some pair ∧ m.Holds o
      ∧ o.key = s.key ∧ s.key = i.derivedKey k id ∧ Converged o (pair.half k)
      ∧ Plan.converge? ((owned.pairOf id).half k) (pair.half k) = some s := by
  cases hs with
  | @create id pair k hp hnone =>
    obtain ⟨j, hj, hstored⟩ := hleaves
    obtain ⟨version, created, hholds⟩ := hstored.holds (Input.tidy_half hi h.derived hp k) hj
    exact ⟨k, id, pair, _, hp, hholds, rfl, Input.key_half h.derived hp k, converged_stamped ..,
      congrArg (Plan.converge? · _) hnone⟩
  | @update id pair k current hp ho hd =>
    obtain ⟨j, hj, hstored⟩ := hleaves
    obtain ⟨hcurrent, -, -⟩ := (h.half_iff hm₀).mp ho
    have htidy := (Object.tidy_of_readable hcurrent.readable).overwrite
      (Input.tidy_half hi h.derived hp k)
    obtain ⟨version, created, hholds⟩ := hstored.holds htidy hj
    have hkey : current.key = i.derivedKey k id := h.key_half hm₀ ho
    exact ⟨k, id, pair, _, hp, hholds, rfl, hkey, converged_overwrite ..,
      (congrArg (Plan.converge? · _) ho).trans (Plan.converge?_some_of_differs hd)⟩
  | remove | clear => exact absurd rfl hop

/-- **Where every cell is as it was or as a step leaves it, all can be read**, if all
could be. -/
theorem readableIn_of_cells (hi : i.Readable) (hcells : ∀ key, m.cell key = m₀.cell key
      ∨ ∃ s, Plan.Planned wanted owned s ∧ s.key = key ∧ s.Leaves (m.cell key)) (k : Kind) :
    m.ReadableIn k i.template.namespaceName := by
  obtain ⟨ts, ss, hlisting, -⟩ := h.exists_listed
  intro name j hj
  rcases hcells ⟨k, i.template.namespaceName, name⟩ with hsame | ⟨s, hs, hkey, hleaves⟩
  · exact Memory.list_eq_ok_iff.mp ⟨_, hlisting k⟩ name j (hsame.symm.trans hj)
  -- what stands in the cell was written by a step, so it can be read
  · have hop : s.operation ≠ .delete := Step.Leaves.ne_delete (hj ▸ hleaves)
    obtain ⟨l, id, pair, o, -, ⟨j', hj', hdecode⟩, hkey', -⟩ :=
      h.exists_half_of_leaves hm₀ hi hs hop (hkey ▸ hleaves)
    have hkey := hkey'.trans hkey
    obtain rfl : l = k := congrArg ObjectKey.kind hkey
    rw [hkey, hj] at hj'
    cases hj'
    exact ⟨o, hdecode⟩

/-- **Another pass finds what should exist, and what is owned now.** -/
theorem exists_of_cells (hi : i.Readable) (hcells : ∀ key, m.cell key = m₀.cell key
      ∨ ∃ s, Plan.Planned wanted owned s ∧ s.key = key ∧ s.Leaves (m.cell key)) :
    ∃ owned', Surveyed i m wanted owned' := by
  have hreadable := h.readableIn_of_cells hm₀ hi hcells
  obtain ⟨ts, hts⟩ := Memory.list_eq_ok_iff.mpr (hreadable .terraform)
  obtain ⟨ss, hss⟩ := Memory.list_eq_ok_iff.mpr (hreadable .gitRepository)
  exact ⟨_, h.derived, ts, ss, hts, hss, rfl⟩

end Surveyed

/-! ## After some steps -/

/-- **Some steps of a plan have been applied** to the store in which the plan was
made. -/
structure Aftermath (i : Input) (m₀ : Memory) (wanted : DesiredState) (owned : OwnedObjects)
    (done : List Step) (m : Memory) : Prop where
  before : m₀.Sound
  readable : i.Readable
  surveyed : Surveyed i m₀ wanted owned
  planned : ∀ s ∈ done, Plan.Planned wanted owned s
  applied : Memory.Applied m₀ done m

namespace Aftermath

/-- A cell is as it was, or as a step of the plan leaves it. -/
theorem cells (h : Aftermath i m₀ wanted owned done m) (key : ObjectKey) :
    m.cell key = m₀.cell key
      ∨ ∃ s, Plan.Planned wanted owned s ∧ s.key = key ∧ s.Leaves (m.cell key) :=
  (h.applied.cell_cases key).imp And.right fun ⟨s, hs, hleaves⟩ => ⟨s, h.planned s hs, hleaves⟩

/-- **The half of a desired pair is there and has converged**, if the step that
it needed, if any, was done. -/
theorem exists_half (h : Aftermath i m₀ wanted owned done m)
    (hp : wanted.pairs.get? id = some pair)
    (hdone : ∀ s, Plan.converge? ((owned.pairOf id).half k) (pair.half k) = some s → s ∈ done) :
    ∃ o : Object k, m.Holds o ∧ o.key = i.derivedKey k id ∧ Converged o (pair.half k) := by
  cases hconverge : Plan.converge? ((owned.pairOf id).half k) (pair.half k) with
  | some s =>
    have hs := hdone s hconverge
    have hop := (Plan.kind_of_converge? hconverge).2
    obtain ⟨l, id', pair', o, hp', hholds, hkey, hderived, hconverged, -⟩ :=
      h.surveyed.exists_half_of_leaves h.before h.readable (h.planned s hs) hop
        (h.applied.leaves hs hop)
    obtain ⟨rfl, rfl⟩ := Input.derivedKey_injective
      (hderived.symm.trans (Plan.key_of_converge? h.before h.surveyed hp hconverge))
    cases hp'.symm.trans hp
    exact ⟨o, hholds, hkey.trans hderived, hconverged⟩
  | none =>
    obtain ⟨current, hcurrent, hsettled⟩ := Plan.converge?_eq_none_iff.mp hconverge
    obtain ⟨hholds, -, -⟩ := (h.surveyed.half_iff h.before).mp hcurrent
    refine ⟨current, hholds.of_cell_eq (h.applied.frame _ fun s hs => ?_),
      h.surveyed.key_half h.before hcurrent, converged_of_not_differs hsettled⟩
    exact h.surveyed.key_ne_of_settled h.before hp hcurrent hsettled (h.planned s hs)

/-- **An object is old or new**: it was held before and no step was about it, or
it is a half of a desired pair and has converged. -/
theorem old_or_new (h : Aftermath i m₀ wanted owned done m) {o : Object k} (ho : m.Holds o) :
    (m₀.Holds o ∧ ∀ s ∈ done, s.key ≠ o.key)
      ∨ ∃ id pair, wanted.pairs.get? id = some pair ∧ o.key = i.derivedKey k id
        ∧ Converged o (pair.half k) := by
  rcases h.applied.cell_cases o.key with ⟨hnone, hsame⟩ | ⟨s, hs, hkey, hleaves⟩
  · exact .inl ⟨ho.of_cell_eq hsame.symm, hnone⟩
  · right
    -- the cell holds one object only, and that is what the step has left
    have ⟨j, hj, _⟩ := ho
    have hop : s.operation ≠ .delete := Step.Leaves.ne_delete (hj ▸ hleaves)
    obtain ⟨l, id, pair, o', hp, hholds, hkey', hderived, hconverged, -⟩ :=
      h.surveyed.exists_half_of_leaves h.before h.readable (h.planned s hs) hop (hkey ▸ hleaves)
    have hsame : o'.key = o.key := hkey'.trans hkey
    obtain rfl : l = k := congrArg ObjectKey.kind hsame
    obtain rfl : o' = o := hholds.unique ho hsame
    exact ⟨id, pair, hp, hkey'.trans hderived, hconverged⟩

/-- **What was owned and is left alone is of a desired branch**, if all
deletions were done. -/
theorem standing_of_old (h : Aftermath i m₀ wanted owned done m)
    (hdeleted : ∀ s, Plan.Planned wanted owned s → s.operation = .delete → s ∈ done)
    {o : Object k} (ho : m₀.Holds o) (howns : i.Owns o) (hold : ∀ s ∈ done, s.key ≠ o.key) :
    ∃ id pair, wanted.pairs.get? id = some pair
      ∧ OwnedObjects.standing (i.origin k) o = .ofBranch id := by
  cases hstanding : OwnedObjects.standing (i.origin k) o with
  | itself => exact absurd (Input.standing_eq_itself_iff.mp hstanding) howns.other
  | stray =>
    have hstray : o.key ∈ owned.strays :=
      (h.surveyed.mem_strays_iff h.before).mpr ⟨o, ho, howns, hstanding, rfl⟩
    exact absurd rfl (hold _ (hdeleted _ (.clear hstray) rfl))
  | ofBranch id =>
    cases hp : wanted.pairs.get? id with
    | some pair => exact ⟨id, pair, hp, rfl⟩
    | none =>
      have hhalf := (h.surveyed.half_iff h.before).mpr ⟨ho, howns, hstanding⟩
      exact absurd rfl (hold _ (hdeleted _ (.remove k hp hhalf) rfl))

/-- **What is owned is a half of a desired pair**, if all deletions were done. -/
theorem exists_pair_of_owned (h : Aftermath i m₀ wanted owned done m)
    (hdeleted : ∀ s, Plan.Planned wanted owned s → s.operation = .delete → s ∈ done)
    {o : Object k} (ho : m.Holds o) (howns : i.Owns o) :
    ∃ id pair, wanted.pairs.get? id = some pair ∧ o.key = i.derivedKey k id := by
  rcases h.old_or_new ho with ⟨ho, hold⟩ | ⟨id, pair, hp, hkey, -⟩
  · obtain ⟨id, pair, hp, hstanding⟩ := h.standing_of_old hdeleted ho howns hold
    exact ⟨id, pair, hp, Input.key_of_standing howns.here hstanding⟩
  · exact ⟨id, pair, hp, hkey⟩

/-! ## Listing again -/

/-- **The namespace can be listed again.** -/
theorem readableIn (h : Aftermath i m₀ wanted owned done m) (k : Kind) :
    m.ReadableIn k i.template.namespaceName :=
  h.surveyed.readableIn_of_cells h.before h.readable h.cells k

/-- **Another pass finds what should exist, and what is owned now.** -/
theorem exists_surveyed (h : Aftermath i m₀ wanted owned done m) :
    ∃ owned', Surveyed i m wanted owned' :=
  h.surveyed.exists_of_cells h.before h.readable h.cells

end Aftermath

end PlanSync.Pass
