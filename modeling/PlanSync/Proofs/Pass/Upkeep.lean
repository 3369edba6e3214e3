import PlanSync.Proofs.Object.Detection
import PlanSync.Proofs.Pass.Recovery
import PlanSync.Proofs.Pass.Truthful

/-!
# What a pass makes of one object

A pass may go wrong in many places and still do all that it has to do about one
branch. Here is what it then leaves of a half of that branch, whichever calls of the
pass fail and whenever it is cancelled (`Pass.BranchDone.left`): an object that needed
no step is as it was found, and where a step was needed, the cell is as the step
leaves it.

One other step may be about the same object, the deletion of a stray under the derived
name. It does not come after the step of the branch. A creation is refused as long as
the stray is there, so that it was deleted before if the branch is done; and about an
object that is told to be of the branch there is no other step.
-/

namespace PlanSync

/-- What is stored of an object has its labels and annotations. -/
theorem Object.StoredAs.metadata {k : Kind} {o o' : Object k} {j : Json} (h : o.StoredAs j)
    (hd : Memory.decode k j = .ok o') :
    o'.labels = o.labels ∧ o'.metadata.annotations = o.metadata.annotations := by
  obtain ⟨version, created, hc, rfl⟩ := h
  have hmeta := Object.metadata_of_decoder_stored hc (Memory.decode_eq_ok.mp hd)
  constructor
  · show o'.metadata.labels = o.metadata.labels
    rw [hmeta]
    rfl
  · rw [hmeta]
    rfl

namespace Pass

variable {clock : Nat → Timestamp} {i : Input} {m₀ m : Memory} {wanted : DesiredState}
  {owned : OwnedObjects} {units : List UnitRun} {events : List Event} {k : Kind} {id : BranchId}
  {pair : DesiredPair}

/-- **A branch is done**: its unit has no step left, if there is one. -/
def BranchDone (id : BranchId) (units : List UnitRun) : Prop :=
  ∀ u ∈ units, u.change.branchId = some id → u.remaining = []

/-- When a pass has succeeded, every branch is done. -/
theorem branchDone_of_ok {stage : Stage} {summary : ApplySummary}
    (hok : stage.result? i = some (.ok summary)) (id : BranchId) :
    ∃ plan units, stage = .applying plan units ∧ BranchDone id units := by
  obtain ⟨plan, units, hstage, hdone, -⟩ := Stage.applying_of_ok hok
  exact ⟨plan, units, hstage, fun u hu _ => hdone u hu⟩

/-- **What a branch that is done has created or updated stands** as it left it. -/
theorem BranchDone.leaves (hdone : BranchDone id units) (hm₀ : m₀.Sound)
    (h : Applying i m₀ events wanted owned units m) {c : BranchChange}
    (hc : c ∈ (Plan.compute wanted owned).changes) (hid : c.branchId = some id) {s : Step}
    (hs : s ∈ c.steps) (hop : s.operation ≠ .delete) : s.Leaves (m.cell s.key) := by
  obtain ⟨done, spared, hperm, happlied, hspared⟩ := h.executed
  have hplan : s ∈ (Plan.compute wanted owned).steps := List.mem_flatMap.mpr ⟨c, hc, hs⟩
  refine happlied.leaves ((List.mem_append.mp (hperm.mem_iff.mpr hplan)).resolve_right ?_) hop
  intro hother
  rcases List.mem_append.mp hother with hspare | hpending
  · exact hop (hspared s hspare)
  -- what is still to come stands in the unit of its change, which has nothing left
  · obtain ⟨u, hu, hsu⟩ := List.mem_flatMap.mp hpending
    have hchange := change_eq hm₀ h.surveyed (h.follows.mem_changes hu)
      (h.follows.mem_change_steps hu hsu) hc hs
    rw [hdone u hu (hchange ▸ hid)] at hsu
    cases hsu

/-- **What a pass leaves of a half whose branch is done**: the half that it found,
if that needed no step; or else what the step leaves that it needed. -/
theorem BranchDone.left (hclock : ∀ n, (clock n).ReadsBack) (hm₀ : m₀.Sound) {plan : Plan}
    (hstage : (Run.inMemory clock i m₀ events).stage = .applying plan units)
    (hdone : BranchDone id units) (hw : i.derive? = some wanted)
    (hp : wanted.pairs.get? id = some pair) :
    ∃ owned, Surveyed i m₀ wanted owned
      ∧ ((∃ o, (owned.pairOf id).half k = some o ∧ o.differsFrom (pair.half k) = false
          ∧ (Run.inMemory clock i m₀ events).state.cell (i.derivedKey k id)
            = m₀.cell (i.derivedKey k id))
        ∨ ∃ s, Plan.converge? ((owned.pairOf id).half k) (pair.half k) = some s
          ∧ s.Leaves ((Run.inMemory clock i m₀ events).state.cell (i.derivedKey k id))) := by
  have hreached := Reached.inMemory hclock hm₀ i events
  generalize Run.inMemory clock i m₀ events = r at *
  cases hreached with
  | begun | listing | refused => cases hstage
  | @applying wanted' owned _ m cancelled h =>
    cases hstage
    have hs := h.surveyed
    obtain rfl : wanted' = wanted := Option.some.inj (hs.derived.symm.trans hw)
    refine ⟨owned, hs, ?_⟩
    cases hconverge : Plan.converge? ((owned.pairOf id).half k) (pair.half k) with
    | none =>
      obtain ⟨o, ho, hsettled⟩ := Plan.converge?_eq_none_iff.mp hconverge
      refine .inl ⟨o, ho, hsettled, ?_⟩
      rcases (h.follows.kept (i.derivedKey k id)).cell with hsame | ⟨s, hplanned, hkey, -⟩
      · exact hsame
      · exact absurd (hkey.trans (hs.key_half hm₀ ho).symm)
          (hs.key_ne_of_settled hm₀ hp ho hsettled hplanned)
    | some s =>
      have hmem := Plan.mem_convergeSteps.mpr ⟨k, hconverge⟩
      have hchange := Plan.mem_changes.mpr (.converge hp (List.ne_nil_of_mem hmem))
      have hleaves := hdone.leaves hm₀ h hchange rfl hmem (Plan.kind_of_converge? hconverge).2
      rw [Plan.key_of_converge? hm₀ hs hp hconverge] at hleaves
      exact .inr ⟨s, rfl, hleaves⟩

end Pass

end PlanSync
