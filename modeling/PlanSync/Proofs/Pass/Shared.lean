import Mathlib.Data.List.Induction
import PlanSync.Proofs.Pass.Joint
import PlanSync.Proofs.Pass.Sourced

/-!
# A pass beside other clients

Between the calls of a pass other clients may create, update and delete whatever
they like. The pass decides what to do from what it has listed, and does it later.
What it can still rely on then is told by two relations between a store and the one
in which the objects of a kind were listed (`Pass.Watched`): the store has come from
the other one, so versions tell whether an object is the one that was listed; and
what stands in a cell stood there then, or bears the owner labels, or was written by
another client.

An update carries the version of the object that was listed, so it replaces that
object or none (`Pass.update_replaces_current`). A deletion carries a name only, so
what it removes bears the owner labels unless another client has written it since
(`Pass.deletes_marked`); and if one has, it need not bear them
(`Pass.deletes_relabelled`).
-/

namespace PlanSync

namespace Pass

open Memory (Edit)

variable {clock : Nat → Timestamp} {i : Input} {m seen : Memory} {wanted : DesiredState}
  {owned : OwnedObjects} {plan : Plan} {units : List UnitRun} {k : Kind} {key : ObjectKey}
  {stage : Stage}

/-! ## The machine -/

/-- What happens next while a pass and other clients use one store. -/
inductive Happening where
  | ours (e : Event)
  | theirs (edit : Edit)

/-- The pass and its store after one more happening. -/
def Run.happen (clock : Nat → Timestamp) (i : Input) (r : Run Memory) : Happening → Run Memory
  | .ours e => r.next (Memory.store clock) i e
  | .theirs edit => { r with state := edit.apply clock r.state }

/-- **A pass over a store that others use, too**, driven by a list of happenings. -/
def Run.shared (clock : Nat → Timestamp) (i : Input) (m : Memory) (happenings : List Happening) :
    Run Memory :=
  happenings.foldl (happen clock i) { state := m }

theorem Run.shared_append_singleton (clock : Nat → Timestamp) (i : Input) (m : Memory)
    (happenings : List Happening) (h : Happening) :
    Run.shared clock i m (happenings ++ [h]) = (Run.shared clock i m happenings).happen clock i h :=
  List.foldl_append

/-- A pass that is on its own. -/
theorem Run.shared_ours (clock : Nat → Timestamp) (i : Input) (m : Memory) (events : List Event) :
    Run.shared clock i m (events.map .ours) = Run.inMemory clock i m events :=
  List.foldl_map

/-- **The objects of a kind have been listed.** -/
def Stage.HasListed : Stage → Kind → Prop
  | listing .., k => k = .terraform
  | applying .., _ => True
  | _, _ => False

/-- **Another client has written an object** under a key after the objects of its kind
had been listed. -/
def Rewritten (clock : Nat → Timestamp) (i : Input) (m : Memory) (happenings : List Happening)
    (key : ObjectKey) : Prop :=
  ∃ before edit later, happenings = before ++ .theirs edit :: later
    ∧ (Run.shared clock i m before).stage.HasListed key.kind
    ∧ edit.Writes clock (Run.shared clock i m before).state key

theorem Rewritten.append {happenings : List Happening} (h : Rewritten clock i m happenings key)
    (next : Happening) : Rewritten clock i m (happenings ++ [next]) key := by
  obtain ⟨before, edit, later, rfl, hlisted, hwrites⟩ := h
  exact ⟨before, edit, later ++ [next], by rw [List.append_assoc, List.cons_append], hlisted,
    hwrites⟩

/-! ## What is known of a listed store -/

/-- **A cell is marked**: what stands in it is the stored form of an object that bears
the owner labels. -/
def Input.Marks (i : Input) (key : ObjectKey) (j : Json) : Prop :=
  ∃ o : Object key.kind, o.key = key ∧ o.CreationReadsBack ∧ i.Bears o ∧ j = o.toJson.sortKeys

/-- **A cell is marked exactly if the object that is read from it** bears the owner
labels. -/
theorem marks_iff (hm : m.Sound) {o : Object k} {j : Json} (hj : m.cell o.key = some j)
    (hd : Memory.decode k j = .ok o) : i.Marks o.key j ↔ i.Bears o := by
  have hlabels : ∀ {o' : Object k}, o'.CreationReadsBack → j = o'.toJson.sortKeys →
      o.labels = o'.labels := by
    rintro o' hc rfl
    exact congrArg Metadata.labels
      (Object.metadata_of_decoder_stored hc (Memory.decode_eq_ok.mp hd))
  constructor
  · rintro ⟨o', -, hc, hbears, hstored⟩
    have heq := hlabels hc hstored
    exact ⟨heq ▸ hbears.marker, heq ▸ hbears.template⟩
  · intro hbears
    obtain ⟨-, o', hkey, hc, hstored⟩ := hm _ _ hj
    have heq := hlabels hc hstored
    exact ⟨o', hkey, hc, ⟨heq ▸ hbears.marker, heq ▸ hbears.template⟩, hstored⟩

/-- **The objects of a kind are watched**: of the store in which they were listed, a
store that has come from it, in which every cell of the kind is as it was, or marked,
or written by another client. -/
structure Watched (clock : Nat → Timestamp) (i : Input) (rewritten : ObjectKey → Prop) (k : Kind)
    (seen m : Memory) : Prop where
  reachable : Memory.Reachable clock seen
  since : seen.Since m
  traced : ∀ key j, key.kind = k → m.cell key = some j →
    seen.cell key = some j ∨ i.Marks key j ∨ rewritten key

namespace Watched

variable {rewritten rewritten' : ObjectKey → Prop}

theorem start (hm : Memory.Reachable clock m) : Watched clock i rewritten k m m :=
  ⟨hm, .refl m, fun _ _ _ hj => .inl hj⟩

theorem mono (h : Watched clock i rewritten k seen m)
    (hrewritten : ∀ key, rewritten key → rewritten' key) : Watched clock i rewritten' k seen m :=
  ⟨h.reachable, h.since, fun key j hkey hj =>
    (h.traced key j hkey hj).imp_right (Or.imp_right (hrewritten key))⟩

/-- **An edit** keeps the objects watched, if what it writes bears the owner labels or
counts as written by another client. -/
theorem edit (hclock : ∀ n, (clock n).ReadsBack) (h : Watched clock i rewritten k seen m)
    (hm : m.Sound) {edit : Edit} (hwrites : (∀ o, edit.object? = some o → i.Bears o.2)
      ∨ ∀ key, key.kind = k → edit.Writes clock m key → rewritten key) :
    Watched clock i rewritten k seen (edit.apply clock m) := by
  refine ⟨h.reachable, h.since.trans (.edit hclock hm edit), fun key j hkey hj => ?_⟩
  rcases edit.apply_cases hclock hm with hsame | ⟨gone, hdrop⟩ | ⟨l, o, created, ho, hc, hwrite⟩
  · rw [hsame] at hj
    exact h.traced key j hkey hj
  · rw [hdrop, Memory.cell_drop] at hj
    split at hj
    · cases hj
    · exact h.traced key j hkey hj
  · rw [hwrite, Memory.cell_write] at hj
    split at hj
    · next heq =>
      subst heq
      cases hj
      rcases hwrites with hbears | hrewritten
      -- what the store assigns is no label
      · have hbears := hbears ⟨l, o⟩ ho
        exact .inr (.inl ⟨o.stamped _ created, rfl, hc, ⟨hbears.marker, hbears.template⟩, rfl⟩)
      · exact .inr (.inr (hrewritten o.key hkey ⟨⟨l, o⟩, created, ho, rfl, hwrite⟩))
    · exact h.traced key j hkey hj

end Watched

/-- **What a plan writes bears the owner labels.** -/
theorem bears_of_planned (hw : i.derive? = some wanted) {s : Step}
    (hs : Plan.Planned wanted owned s) {o : Σ k, Object k} (ho : s.edit.object? = some o) :
    i.Bears o.2 := by
  cases hs with
  | create k hp _ =>
    cases ho
    exact Input.bears_half hw hp k
  | @update id pair k current hp _ _ =>
    cases ho
    have hbears := Input.bears_half hw hp k
    have hcovers := Object.covers_overwrite current (pair.half k)
    exact ⟨hcovers.labels _ _ hbears.marker, hcovers.labels _ _ hbears.template⟩
  | remove | clear => cases ho

/-! ## What holds at every moment -/

/-- **Where a pass beside other clients can stand.** The two kinds of objects were
listed at different times, so the plan is made for a store that is pieced together. -/
inductive Beside (clock : Nat → Timestamp) (i : Input) (rewritten : ObjectKey → Prop) :
    Stage → Memory → Prop
  | begun {m : Memory} (hm : Memory.Reachable clock m) : Beside clock i rewritten .begun m
  | listing {m seen : Memory} {wanted : DesiredState} {ts : List Terraform}
      (hm : Memory.Reachable clock m) (hwanted : i.derive? = some wanted)
      (hts : i.listing seen .terraform = .ok ts)
      (hwatched : Watched clock i rewritten .terraform seen m) :
    Beside clock i rewritten (.listing wanted ts) m
  | applying {m : Memory} {seen : Kind → Memory} {wanted : DesiredState} {owned : OwnedObjects}
      {units : List UnitRun} (hm : Memory.Reachable clock m)
      (hsurveyed : Surveyed i (Memory.piece seen) wanted owned)
      (hwatched : ∀ k, Watched clock i rewritten k (seen k) m)
      (hplanned : ∀ u ∈ units, ∀ s ∈ u.remaining, Plan.Planned wanted owned s) :
    Beside clock i rewritten (.applying (.compute wanted owned) units) m
  | refused {m : Memory} {cause : PassError} (hm : Memory.Reachable clock m) :
    Beside clock i rewritten (.refused cause) m

/-- What a unit has left after a step it had left before. -/
theorem mem_remaining_of_after {u : UnitRun} {step : Step} {rest : List Step}
    (hnext : u.remaining = step :: rest) {result : Except StoreError Unit} {s : Step}
    (hs : s ∈ (u.after step rest result).remaining) : s ∈ u.remaining := by
  cases result with
  | ok _ =>
    rw [hnext]
    exact List.mem_cons_of_mem step hs
  | error e => exact hs

namespace Beside

variable {rewritten rewritten' : ObjectKey → Prop}

theorem reachable (h : Beside clock i rewritten stage m) : Memory.Reachable clock m := by
  cases h with
  | begun hm | listing hm | applying hm | refused hm => exact hm

theorem mono (h : Beside clock i rewritten stage m)
    (hrewritten : ∀ key, rewritten key → rewritten' key) : Beside clock i rewritten' stage m := by
  cases h with
  | begun hm => exact .begun hm
  | listing hm hwanted hts hwatched => exact .listing hm hwanted hts (hwatched.mono hrewritten)
  | applying hm hsurveyed hwatched hplanned =>
    exact .applying hm hsurveyed (fun k => (hwatched k).mono hrewritten) hplanned
  | refused hm => exact .refused hm

/-- **Another client edits the store.** -/
theorem theirs (hclock : ∀ n, (clock n).ReadsBack) (h : Beside clock i rewritten stage m)
    (edit : Edit)
    (hrewritten : ∀ key, stage.HasListed key.kind → edit.Writes clock m key → rewritten key) :
    Beside clock i rewritten stage (edit.apply clock m) := by
  have hsound := h.reachable.sound hclock
  cases h with
  | begun hm => exact .begun (hm.edit edit)
  | listing hm hwanted hts hwatched =>
    exact .listing (hm.edit edit) hwanted hts (hwatched.edit hclock hsound (.inr hrewritten))
  | applying hm hsurveyed hwatched hplanned =>
    exact .applying (hm.edit edit) hsurveyed (fun k => (hwatched k).edit hclock hsound
      (.inr fun key _ => hrewritten key trivial)) hplanned
  | refused hm => exact .refused (hm.edit edit)

/-- **The pass issues a call**, to a store that lists what is held, and in which a step
changes nothing or is an edit. -/
theorem ours (hclock : ∀ n, (clock n).ReadsBack) {store : Store Memory}
    (hlist : ∀ k ns selector, (store.list k ns selector m).state = m
      ∧ ∀ os, (store.list k ns selector m).result = .ok os → m.list k ns selector = .ok os)
    (hrun : ∀ flag step, (Step.run store flag step m).state = m
      ∨ (Step.run store flag step m).state = step.edit.apply clock m)
    (h : Beside clock i rewritten stage m) (cancelled : Bool) (place : Nat) :
    Beside clock i rewritten (stage.advance store cancelled i place m).1
      (stage.advance store cancelled i place m).2 := by
  cases h with
  | begun hm =>
    rcases advance_begun store i cancelled place m with
      ⟨cause, s, h, -, hs, -⟩ | ⟨wanted, ts, h, hwanted, hts⟩
    · rw [h, show s = m from hs.elim id fun hs => hs.trans (hlist ..).1]
      exact .refused hm
    · rw [h, (hlist ..).1]
      exact .listing hm hwanted ((hlist ..).2 ts hts) (.start hm)
  | @listing _ seen wanted ts hm hwanted hts hwatched =>
    rcases advance_listing store i cancelled place wanted ts m with ⟨cause, h, -⟩ | ⟨ss, h, hss⟩
    · rw [h, (hlist ..).1]
      exact .refused hm
    · rw [h, (hlist ..).1]
      have hsurveyed : Surveyed i (Memory.piece (Kind.each seen m)) wanted
          (.ofListed i.template i.source ts ss) :=
        surveyed_piece hwanted hts ((hlist ..).2 ss hss)
      refine .applying hm hsurveyed (fun k => ?_) fun u hu s hs => ?_
      · cases k with
        | terraform => exact hwatched
        | gitRepository => exact .start hm
      · obtain ⟨c, hc, rfl⟩ := List.mem_map.mp hu
        exact Plan.planned_of_changes (Plan.mem_changes.mp hc) hs
  | @applying _ seen wanted owned units hm hsurveyed hwatched hplanned =>
    rcases advance_applying store i cancelled (.compute wanted owned) units place m with
      h | ⟨before, later, u, step, rest, rfl, hready, hnext, h⟩
    · rw [h]
      exact .applying hm hsurveyed hwatched hplanned
    · rw [h]
      have hu := hplanned u List.mem_append_cons_self
      have hplanned : ∀ v ∈ before ++ u.after step rest
          (step.run store (fun _ => cancelled) m).result :: later,
          ∀ s ∈ v.remaining, Plan.Planned wanted owned s :=
        forall_mem_split hplanned fun s hs => hu s (mem_remaining_of_after hnext hs)
      rcases hrun (fun _ => cancelled) step with hsame | hedit
      · rw [hsame]
        exact .applying hm hsurveyed hwatched hplanned
      · rw [hedit]
        have hstep := hu step (hnext ▸ List.mem_cons_self)
        exact .applying (hm.edit step.edit) hsurveyed (fun k => (hwatched k).edit hclock
          (hm.sound hclock) (.inl fun _ => bears_of_planned hsurveyed.derived hstep)) hplanned
  | refused hm => exact .refused hm

/-- **Every event of the pass** is a call to the store, or to one none of whose calls
gets through, or no call. -/
theorem next (hclock : ∀ n, (clock n).ReadsBack) {r : Run Memory}
    (h : Beside clock i rewritten r.stage r.state) (e : Event) :
    Beside clock i rewritten (r.next (Memory.store clock) i e).stage
      (r.next (Memory.store clock) i e).state := by
  cases e with
  | cancel => exact h
  | turn place =>
    refine h.ours hclock (fun _ _ _ => ⟨rfl, fun _ => id⟩) (fun flag step => ?_) r.cancelled place
    rw [Step.state_run]
    split
    · exact .inl rfl
    · exact .inr rfl
  | fault place cause =>
    exact h.ours hclock (fun _ _ _ => ⟨rfl, fun _ h => by cases h⟩)
      (fun flag step => .inl (Step.run_failing cause flag step r.state).1) r.cancelled place

end Beside

/-- **What holds at every moment of a pass beside other clients.** -/
theorem beside_shared (hclock : ∀ n, (clock n).ReadsBack) (hm : Memory.Reachable clock m)
    (i : Input) (happenings : List Happening) :
    Beside clock i (Rewritten clock i m happenings) (Run.shared clock i m happenings).stage
      (Run.shared clock i m happenings).state := by
  induction happenings using List.reverseRecOn with
  | nil => exact .begun hm
  | append_singleton happenings h ih =>
    have ih := ih.mono fun key hkey => hkey.append h
    rw [Run.shared_append_singleton]
    cases h with
    | ours e => exact ih.next hclock e
    | theirs edit =>
      exact ih.theirs hclock edit fun key hlisted hwrites =>
        ⟨happenings, edit, [], rfl, hlisted, hwrites⟩

/-! ## Updates -/

/-- **An update replaces what was listed, or nothing.** Whenever it is issued, and
whatever other clients have done since the listing, it fails and leaves the store as
it was, or it succeeds and what it replaces is the very object for which it was
planned. So nothing is lost that was written in between, not even if the object was
deleted and created again. -/
theorem update_replaces_current (hclock : ∀ n, (clock n).ReadsBack) {m : Memory}
    (hm : Memory.Reachable clock m) (i : Input) (happenings : List Happening) {plan : Plan}
    {units : List UnitRun}
    (hstage : (Run.shared clock i m happenings).stage = .applying plan units)
    {current updated : Object k} (hstep : .update k current updated ∈ plan.steps)
    (cancelled : Bool) :
    let s := (Run.shared clock i m happenings).state
    let r := (Step.update k current updated).run (Memory.store clock) (fun _ => cancelled) s
    (∃ e, r.result = .error e ∧ r.state = s)
      ∨ (r.result = .ok () ∧ s.Holds current ∧ current.key = updated.key) := by
  intro s r
  have hbeside := beside_shared hclock hm i happenings
  rw [hstage] at hbeside
  have hsound : s.Sound := hbeside.reachable.sound hclock
  cases cancelled with
  | true => exact .inl ⟨.cancelled, rfl, rfl⟩
  | false =>
    rcases Step.run_cases hclock hsound (fun _ => false) rfl (.update k current updated) with
      ⟨hok, hdoes, -⟩ | ⟨e, herror, hsame, -⟩
    · refine .inr ⟨hok, ?_⟩
      obtain ⟨stored, hr⟩ := hdoes.possible
      obtain ⟨j, hj, hd⟩ := hr.found
      have hkey : stored.key = updated.key := (hsound.key_of_decode hj hd).1
      have hstored : s.Holds stored := ⟨j, hkey ▸ hj, hd⟩
      cases hbeside with
      | @applying _ seen wanted owned _ _ hsurveyed hwatched _ =>
        cases Plan.mem_steps.mp hstep with
        | @update id pair _ _ hp ho _ =>
          have hpiece : (Memory.piece seen).Sound :=
            .piece fun k => (hwatched k).reachable.sound hclock
          obtain ⟨hlisted, -, -⟩ := (hsurveyed.half_iff hpiece).mp ho
          have hlisted : (seen k).Holds current :=
            hlisted.of_cell_eq (Memory.cell_piece seen current.key).symm
          -- the update carries the version of the object that was listed
          have hsince := (hwatched k).reachable.since hclock
          obtain ⟨n, -, hversion⟩ := hsince.exists_version hlisted
          have heq : stored = current := hsince.eq_of_version (hwatched k).since hlisted hstored
            hkey ((Memory.version_of_checkVersion hr.version hversion).trans hversion.symm)
          exact ⟨heq ▸ hstored, rfl⟩
    · exact .inl ⟨e, herror, hsame⟩

/-- The steps of the plan that a pass applies, by operation and key. -/
def Stage.planned : Stage → List (Operation × ObjectKey)
  | applying plan _ => plan.steps.map fun s => (s.operation, s.key)
  | _ => []

theorem Stage.exists_of_mem_planned {op : Operation} (h : (op, key) ∈ stage.planned) :
    ∃ plan units, stage = .applying plan units
      ∧ ∃ s ∈ plan.steps, s.operation = op ∧ s.key = key := by
  cases stage with
  | applying plan units =>
    obtain ⟨s, hs, heq⟩ := List.mem_map.mp h
    exact ⟨plan, units, rfl, s, hs, (Prod.mk.inj heq).1, (Prod.mk.inj heq).2⟩
  | begun | listing | refused => cases h

theorem Stage.delete_mem_of_planned (h : (.delete, key) ∈ stage.planned) :
    ∃ plan units, stage = .applying plan units ∧ .delete key ∈ plan.steps := by
  obtain ⟨plan, units, hstage, s, hs, hop, hkey⟩ := Stage.exists_of_mem_planned h
  cases s with
  | create | update => cases hop
  | delete key' => exact ⟨plan, units, hstage, hkey ▸ hs⟩

/-- The source is listed, and then another client deletes it and creates one that looks
the same. -/
def recreation : List Happening :=
  [.ours (.turn 0), .ours (.turn 0), .theirs (.delete outdatedSource.key),
    .theirs (.create .gitRepository outdatedSource)]

/-- The update of the source that was listed does not replace the one that was created
again. -/
theorem update_spares_recreated :
    let s := (Run.shared stoppedClock sampleInput outdatedMemory recreation).state
    (∃ plan units k, ∃ current updated : Object k,
      (Run.shared stoppedClock sampleInput outdatedMemory recreation).stage = .applying plan units
        ∧ .update k current updated ∈ plan.steps
        ∧ let r := (Step.update k current updated).run (Memory.store stoppedClock)
            (fun _ => false) s
          ((∃ e, r.result = .error e ∧ r.state = s)
            ∨ (r.result = .ok () ∧ s.Holds current ∧ current.key = updated.key)))
      ∧ (reported ((Run.shared stoppedClock sampleInput outdatedMemory
            (recreation ++ [.ours (.turn 0)])).stage.result? sampleInput)).map
          (fun f => (f.1, f.2.category)) = [(.update, .conflict)] := by
  have hruns : (.update, outdatedSource.key)
        ∈ (Run.shared stoppedClock sampleInput outdatedMemory recreation).stage.planned
      ∧ (reported ((Run.shared stoppedClock sampleInput outdatedMemory
          (recreation ++ [.ours (.turn 0)])).stage.result? sampleInput)).map
        (fun f => (f.1, f.2.category)) = [(.update, .conflict)] := by
    decide +kernel
  obtain ⟨hplanned, hreported⟩ := hruns
  refine ⟨?_, hreported⟩
  obtain ⟨plan, units, hstage, s, hs, hop, -⟩ := Stage.exists_of_mem_planned hplanned
  cases s with
  | create | delete => cases hop
  | update k current updated =>
    exact ⟨plan, units, k, current, updated, hstage, hs, update_replaces_current
      readsBack_stoppedClock (.create .empty _ _) sampleInput recreation hstage hs false⟩

/-! ## Deletions -/

/-- **What is under a name that a plan deletes** bears the owner labels, at every
moment, unless another client has written it after it was listed. -/
theorem Beside.marks_of_delete {rewritten : ObjectKey → Prop}
    (hclock : ∀ n, (clock n).ReadsBack) (h : Beside clock i rewritten (.applying plan units) m)
    (hstep : .delete key ∈ plan.steps) {j : Json} (hj : m.cell key = some j) :
    i.Marks key j ∨ rewritten key := by
  cases h with
  | @applying _ seen wanted owned _ _ hsurveyed hwatched _ =>
    rcases (hwatched key.kind).traced key j rfl hj with hseen | hmarks | hrewritten
    · have hpiece : (Memory.piece seen).Sound :=
        .piece fun k => (hwatched k).reachable.sound hclock
      obtain ⟨o, ⟨j', hj', hd⟩, howns, hkey⟩ :=
        Plan.holds_of_delete hpiece hsurveyed (Plan.mem_steps.mp hstep)
      have hcell : (Memory.piece seen).cell o.key = some j := by
        rw [hkey, Memory.cell_piece]
        exact hseen
      cases hj'.symm.trans hcell
      exact .inl (hkey ▸ (marks_iff hpiece hcell hd).mpr howns.bears)
    · exact .inl hmarks
    · exact .inr hrewritten

/-- **A deletion removes what bears the owner labels**, whenever it is issued, unless
another client has written the object after it was listed. -/
theorem deletes_marked (hclock : ∀ n, (clock n).ReadsBack) {m : Memory}
    (hm : Memory.Reachable clock m) (i : Input) (happenings : List Happening) {plan : Plan}
    {units : List UnitRun}
    (hstage : (Run.shared clock i m happenings).stage = .applying plan units)
    {key : ObjectKey} (hstep : .delete key ∈ plan.steps) (cancelled : Bool) {removed : ObjectKey}
    {j : Json} :
    let s := (Run.shared clock i m happenings).state
    s.cell removed = some j →
    ((Step.delete key).run (Memory.store clock) (fun _ => cancelled) s).state.cell removed
      ≠ some j →
    i.Marks removed j ∨ Rewritten clock i m happenings removed := by
  intro s hj hremoved
  have hbeside := beside_shared hclock hm i happenings
  rw [hstage] at hbeside
  by_cases hkey : removed = key
  · subst hkey
    exact hbeside.marks_of_delete hclock hstep hj
  · rw [Step.cell_run_of_ne hclock (hbeside.reachable.sound hclock) _ (.delete key) hkey] at hremoved
    exact absurd hj hremoved

/-- A source of another client. -/
def unrelatedSource : GitRepository :=
  { sampleStray with metadata := { name := "upstream", namespaceName := "team" } }

/-- The stray is listed, and then another client creates a source. -/
def bystanding : List Happening :=
  [.ours (.turn 0), .ours (.turn 0), .theirs (.create .gitRepository unrelatedSource)]

/-- The stray is deleted beside the source of another client, and bears the labels
until then. -/
theorem deletes_marked_beside_bystander :
    let s := (Run.shared stoppedClock closedInput strayedMemory bystanding).state
    let r := (Step.delete sampleStray.key).run (Memory.store stoppedClock) (fun _ => false) s
    r.state.cell unrelatedSource.key ≠ none
      ∧ ∃ j, s.cell sampleStray.key = some j ∧ r.state.cell sampleStray.key = none
        ∧ (closedInput.Marks sampleStray.key j
          ∨ Rewritten stoppedClock closedInput strayedMemory bystanding sampleStray.key) := by
  intro s r
  have hruns : (.delete, sampleStray.key)
        ∈ (Run.shared stoppedClock closedInput strayedMemory bystanding).stage.planned
      ∧ (r.state.cell unrelatedSource.key).isSome ∧ (s.cell sampleStray.key).isSome
      ∧ (r.state.cell sampleStray.key).isNone := by
    decide +kernel
  obtain ⟨hplanned, hother, hthere, hgone⟩ := hruns
  have hgone := Option.isNone_iff_eq_none.mp hgone
  obtain ⟨j, hj⟩ := Option.isSome_iff_exists.mp hthere
  obtain ⟨plan, units, hstage, hstep⟩ := Stage.delete_mem_of_planned hplanned
  refine ⟨Option.isSome_iff_ne_none.mp hother, j, hj, hgone, ?_⟩
  refine deletes_marked readsBack_stoppedClock reachable_strayedMemory closedInput bystanding
    hstage hstep false hj ?_
  show r.state.cell sampleStray.key ≠ some j
  rw [hgone]
  exact (Option.some_ne_none j).symm

/-- The stray of the sample without its owner labels. -/
def releasedStray : GitRepository :=
  { sampleStray with metadata := { sampleStray.metadata with labels := .empty } }

/-- The stray is listed, and then another client takes its labels away. -/
def release : List Happening :=
  [.ours (.turn 0), .ours (.turn 0), .theirs (.update .gitRepository releasedStray)]

/-- **A deletion may remove what bears no owner label**: it goes by name, and does not
look at what has become of the object since it was listed. -/
theorem deletes_relabelled :
    let r := Run.shared stoppedClock closedInput strayedMemory release
    ∃ plan units, ∃ o : GitRepository,
      r.stage = .applying plan units ∧ .delete o.key ∈ plan.steps ∧ r.state.Holds o
        ∧ ¬ closedInput.Bears o
        ∧ (r.happen stoppedClock closedInput (.ours (.turn 0))).state.cell o.key = none := by
  intro r
  have hsound : r.state.Sound :=
    (beside_shared readsBack_stoppedClock reachable_strayedMemory closedInput release).reachable.sound
      readsBack_stoppedClock
  have hruns : (.delete, sampleStray.key) ∈ r.stage.planned
      ∧ ((r.state.get .gitRepository "team" "repo-topic-7").toOption.map
        fun o => o.labels.get? ownerLabel) = some none
      ∧ ((r.happen stoppedClock closedInput (.ours (.turn 0))).state.cell
        sampleStray.key).isNone := by
    decide +kernel
  obtain ⟨hplanned, hlabel, hgone⟩ := hruns
  obtain ⟨plan, units, hstage, hstep⟩ := Stage.delete_mem_of_planned hplanned
  obtain ⟨o, hholds, hkey, hlabel⟩ := hsound.exists_of_get hlabel
  have hkey : o.key = sampleStray.key := hkey
  refine ⟨plan, units, o, hstage, hkey ▸ hstep, hholds, fun hbears => ?_,
    hkey ▸ Option.isNone_iff_eq_none.mp hgone⟩
  cases hlabel.symm.trans hbears.marker

end Pass

end PlanSync
