import Mathlib.Data.List.Pairwise
import PlanSync.Proofs.Pass.Parallel
import PlanSync.Proofs.Pass.Stabilisation

/-!
# Plans made while a plan is under way

A pass may find a store in which part of a plan has been done: the plan of an
earlier pass that was cut short, or of another pass that runs at the same time.
What it then plans is told cell by cell. Where a cell is as the first plan found
it, the same steps are planned again (`Pass.Surveyed.planned_iff`). Where a step
of the first plan has left an object, nothing more is planned, if the object is
told to be of its branch (`Pass.Surveyed.key_ne_of_converged`). And where a step
has deleted what was owned, nothing is planned either, unless an object is to be
created there (`Pass.Surveyed.key_ne_of_deleted`).

To compare the ends of passes it is enough to know which steps they have done.
A store *attains* steps if every cell that they are about is as they leave it and
every other is as it was (`Memory.Attains`), and two stores that attain the same
steps have the same content (`Memory.Attains.sameContent`).
-/

namespace PlanSync

variable {k : Kind}

/-! ## Attaining steps -/

theorem Object.StoredAs.unassigned_eq {o : Object k} {j : Json} (h : o.StoredAs j) :
    j.unassigned = o.content := by
  obtain ⟨version, created, -, rfl⟩ := h
  exact o.content_stamped version created

/-- **What a step leaves has the content of the step.** -/
theorem Step.content_of_leaves {s : Step} {m : Memory} (h : s.Leaves (m.cell s.key)) :
    m.content s.key = s.content := by
  unfold Memory.content
  cases s with
  | create k o =>
    obtain ⟨j, hj, hstored⟩ := h
    rw [hj]
    exact congrArg some hstored.unassigned_eq
  | update k current o =>
    obtain ⟨j, hj, hstored⟩ := h
    rw [hj]
    exact congrArg some hstored.unassigned_eq
  | delete key => rw [show m.cell (Step.delete key).key = none from h]; rfl

namespace Memory

/-- **Steps are attained**: of a store as it was, a store in which every cell that
a step is about is as the step leaves it, and all others are as they were. -/
structure Attains (m₀ : Memory) (steps : Step → Prop) (m : Memory) : Prop where
  frame : ∀ key, (∀ s, steps s → s.key ≠ key) → m.cell key = m₀.cell key
  left : ∀ s, steps s → s.Leaves (m.cell s.key)

/-- **Stores that attain the same steps have the same content.** -/
theorem Attains.sameContent {m₀ m m' : Memory} {steps : Step → Prop} (h : m₀.Attains steps m)
    (h' : m₀.Attains steps m') : m.SameContent m' := by
  intro key
  by_cases htouched : ∃ s, steps s ∧ s.key = key
  · obtain ⟨s, hs, rfl⟩ := htouched
    rw [Step.content_of_leaves (h.left s hs), Step.content_of_leaves (h'.left s hs)]
  · have hnone : ∀ s, steps s → s.key ≠ key := fun s hs hkey => htouched ⟨s, hs, hkey⟩
    exact content_of_cell_eq ((h.frame key hnone).trans (h'.frame key hnone).symm)

end Memory

namespace Plan

open Pass

variable {i : Input} {m₀ m : Memory} {wanted : DesiredState} {owned : OwnedObjects}

/-- **A step of a plan lasts**, unless it deletes what gives way to a creation. -/
structure Lasting (wanted : DesiredState) (owned : OwnedObjects) (s : Step) : Prop where
  planned : Planned wanted owned s
  last : s.operation = .delete → ∀ t, Planned wanted owned t → t.operation = .create →
    t.key ≠ s.key

theorem lasting_of_ne_delete {s : Step} (hs : Planned wanted owned s)
    (hop : s.operation ≠ .delete) : Lasting wanted owned s :=
  ⟨hs, fun hdelete => absurd hdelete hop⟩

/-- Where there is a step, there is one that lasts. -/
theorem exists_lasting {s : Step} (hs : Planned wanted owned s) :
    ∃ t, Lasting wanted owned t ∧ t.key = s.key := by
  by_cases hlast : ∃ t, Planned wanted owned t ∧ t.operation = .create ∧ t.key = s.key
  · obtain ⟨t, ht, hcreate, hkey⟩ := hlast
    refine ⟨t, lasting_of_ne_delete ht fun hdelete => ?_, hkey⟩
    cases hcreate.symm.trans hdelete
  · exact ⟨s, ⟨hs, fun _ t ht hcreate hkey => hlast ⟨t, ht, hcreate, hkey⟩⟩, rfl⟩

/-- **Two steps about one object** are one step, or one creates and the other
deletes it. -/
theorem Planned.eq_or (hm₀ : m₀.Sound) (h : Surveyed i m₀ wanted owned) {s t : Step}
    (hs : Planned wanted owned s) (ht : Planned wanted owned t) (hkey : s.key = t.key) :
    s = t ∨ (s.operation = .create ∧ t.operation = .delete)
      ∨ (s.operation = .delete ∧ t.operation = .create) := by
  by_cases heq : s = t
  · exact .inl heq
  · have hsymm : Std.Symm Step.Apart := ⟨fun _ _ => Step.Apart.symm⟩
    exact .inr ((pairwise_steps hm₀ h).forall (mem_steps.mpr hs) (mem_steps.mpr ht) heq hkey)

/-- A step that lasts is the only one that does. -/
theorem Lasting.eq (hm₀ : m₀.Sound) (h : Surveyed i m₀ wanted owned) {s t : Step}
    (hs : Lasting wanted owned s) (ht : Lasting wanted owned t) (hkey : s.key = t.key) : s = t := by
  rcases hs.planned.eq_or hm₀ h ht.planned hkey with heq | ⟨hcreate, hdelete⟩ | ⟨hdelete, hcreate⟩
  · exact heq
  · exact absurd hkey (ht.last hdelete s hs.planned hcreate)
  · exact absurd hkey.symm (hs.last hdelete t ht.planned hcreate)

/-- **A half that is owned is not deleted**, if its branch is desired. -/
theorem Planned.key_ne_of_delete (hm₀ : m₀.Sound) (h : Surveyed i m₀ wanted owned) {s : Step}
    (hs : Planned wanted owned s) (hdelete : s.operation = .delete) {id : BranchId}
    {pair : DesiredPair} (hp : wanted.pairs.get? id = some pair) {o : Object k}
    (ho : (owned.pairOf id).half k = some o) : s.key ≠ o.key := by
  cases hs with
  | create | update => cases hdelete
  | @remove id' l o' hw ho' =>
    intro hkey
    have hkey : o'.key = o.key := hkey
    obtain ⟨-, rfl⟩ := Input.derivedKey_injective
      ((h.key_half hm₀ ho').symm.trans (hkey.trans (h.key_half hm₀ ho)))
    cases hw.symm.trans hp
  | clear hstray => exact (stray_ne_half hm₀ h ho hstray).symm

/-- **Where nothing stands, only a creation is planned.** -/
theorem Planned.operation_of_cell_none (hm₀ : m₀.Sound) (h : Surveyed i m₀ wanted owned)
    {s : Step} (hs : Planned wanted owned s) (hnone : m₀.cell s.key = none) :
    s.operation = .create := by
  cases s with
  | create k o => rfl
  | update k current o =>
    cases hs with
    | update _ _ ho _ =>
      obtain ⟨⟨j, hj, -⟩, -, -⟩ := (h.half_iff hm₀).mp ho
      cases hnone.symm.trans hj
  | delete key => exact absurd hnone (cell_of_delete hm₀ h hs rfl)

end Plan

namespace Pass

variable {clock : Nat → Timestamp} {i : Input} {m₀ m m' : Memory} {wanted : DesiredState}
  {owned owned' : OwnedObjects} {id : BranchId} {pair : DesiredPair}

/-! ## Objects told again -/

/-- **What covers a desired half is told to be of its branch**, if another object
under the key was. -/
theorem standing_of_covers_of_told (hw : i.derive? = some wanted)
    (hp : wanted.pairs.get? id = some pair) {current o : Object k}
    (htold : OwnedObjects.standing (i.origin k) current = .ofBranch id)
    (hcurrent : current.key = i.derivedKey k id) (hkey : o.key = i.derivedKey k id)
    (hcovers : o.Covers (pair.half k)) :
    OwnedObjects.standing (i.origin k) o = .ofBranch id := by
  obtain ⟨pr, -, rfl, hlabel⟩ := Input.pullRequestLabel_half hw hp k
  obtain ⟨-, htold⟩ := Input.standing_eq_ofBranch_iff.mp htold
  refine Input.standing_eq_ofBranch_iff.mpr ⟨Input.not_itself_of_key hkey, ?_⟩
  -- only the number of the pull request tells the id, and both objects bear it
  obtain ⟨number, -, hname⟩ := Option.bind_eq_some_iff.mp htold
  obtain rfl := BranchId.number_of_ofName? hname
  unfold OwnedObjects.branchIdOf?
  rw [hcovers.labels _ _ hlabel]
  rw [show current.name = o.name from congrArg ObjectKey.name (hcurrent.trans hkey.symm)] at hname
  exact hname

namespace Surveyed

/-- **One survey for each store.** -/
theorem unique {wanted' : DesiredState} (h : Surveyed i m wanted owned)
    (h' : Surveyed i m wanted' owned') : wanted' = wanted ∧ owned' = owned := by
  obtain ⟨ts, ss, hts, hss, rfl⟩ := h.listed
  obtain ⟨ts', ss', hts', hss', rfl⟩ := h'.listed
  cases hts.symm.trans hts'
  cases hss.symm.trans hss'
  exact ⟨Option.some.inj (h'.derived.symm.trans h.derived), rfl⟩

/-! ## Where nothing was done -/

theorem planned_of_cell_eq (hm₀ : m₀.Sound) (hm : m.Sound) (h : Surveyed i m₀ wanted owned)
    (h' : Surveyed i m wanted owned') {s : Step} (hcell : m.cell s.key = m₀.cell s.key)
    (hs : Plan.Planned wanted owned s) : Plan.Planned wanted owned' s := by
  cases hs with
  | create k hp hnone =>
    have hkey := Input.key_half h.derived hp k
    exact .create k hp ((h.half_eq hm₀ hm h' (hkey ▸ hcell)).trans hnone)
  | update k hp ho hd =>
    have hkey := h.key_half hm₀ ho
    exact .update k hp ((h.half_eq hm₀ hm h' (hkey ▸ hcell)).trans ho) hd
  | remove k hw ho =>
    have hkey := h.key_half hm₀ ho
    exact .remove k hw ((h.half_eq hm₀ hm h' (hkey ▸ hcell)).trans ho)
  | clear hstray =>
    obtain ⟨o, hholds, howns, hstanding, hkey⟩ := (h.mem_strays_iff hm₀).mp hstray
    have hholds' := hholds.of_cell_eq (hkey ▸ hcell)
    exact .clear ((h'.mem_strays_iff hm).mpr ⟨o, hholds', howns, hstanding, hkey⟩)

/-- **Where a cell is the same, the same steps are planned.** -/
theorem planned_iff (hm₀ : m₀.Sound) (hm : m.Sound) (h : Surveyed i m₀ wanted owned)
    (h' : Surveyed i m wanted owned') {s : Step} (hcell : m.cell s.key = m₀.cell s.key) :
    Plan.Planned wanted owned' s ↔ Plan.Planned wanted owned s :=
  ⟨h'.planned_of_cell_eq hm hm₀ h hcell.symm, h.planned_of_cell_eq hm₀ hm h' hcell⟩

/-! ## Where something was done -/

/-- **About an object that has converged nothing is planned**, if it is told to be
of its branch. -/
theorem key_ne_of_converged (hm : m.Sound) (hcomma : i.CommaFree) (h' : Surveyed i m wanted owned')
    (hp : wanted.pairs.get? id = some pair) {o : Object k} (ho : m.Holds o)
    (hkey : o.key = i.derivedKey k id) (hconverged : Converged o (pair.half k))
    (htold : OwnedObjects.standing (i.origin k) o = .ofBranch id) {s : Step}
    (hs : Plan.Planned wanted owned' s) : s.key ≠ o.key :=
  have howns := owns_of_covers h'.derived hp hkey hconverged.covers
  h'.key_ne_of_settled hm hp ((h'.half_iff hm).mpr ⟨ho, howns, htold⟩)
    (hconverged.settled (Input.recorded_half hcomma h'.derived hp k)) hs

/-- **Where a deletion was done nothing is planned**, if it lasts. -/
theorem key_ne_of_deleted (hm₀ : m₀.Sound) (hm : m.Sound) (h : Surveyed i m₀ wanted owned)
    (h' : Surveyed i m wanted owned') {s t : Step} (ht : Plan.Lasting wanted owned t)
    (hdelete : t.operation = .delete) (hnone : m.cell t.key = none)
    (hs : Plan.Planned wanted owned' s) : s.key ≠ t.key := by
  intro hkey
  have hcreate := hs.operation_of_cell_none hm h' (hkey ▸ hnone)
  cases hs with
  | update | remove | clear => cases hcreate
  | @create id pair k hp _ =>
    have hderived := Input.key_half h.derived hp k
    -- the half would have been missing from the start, or else be deleted
    -- although its branch is desired
    cases ho : (owned.pairOf id).half k with
    | none => exact ht.last hdelete _ (.create k hp ho) rfl hkey
    | some o =>
      refine ht.planned.key_ne_of_delete hm₀ h hdelete hp ho ?_
      exact hkey.symm.trans (hderived.trans (h.key_half hm₀ ho).symm)

end Surveyed

end Pass

end PlanSync
