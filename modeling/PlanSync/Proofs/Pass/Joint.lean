import PlanSync.Proofs.Pass.Underway

/-!
# Passes at the same time

Passes with the same inputs may run at the same time against one store, so that
the calls of one come between the calls of another. Here several passes are one
machine (`Pass.Joint`), driven by a list that says whose call is next; the two
listings of a pass are two calls, and others may write between them.

If the steps that are planned in the beginning are about different objects, all
passes together are one: every pass plans those steps that it does not find done
(`Pass.Unobstructed.planned_iff`), and at every moment the store is what the
steps done by any of them make of it (`Pass.Joint.Agrees`). A pass sees the two
kinds of objects at different times, and so plans for a store that may never have
existed; but that store is pieced together from two that did
(`Memory.piece`), and all that is known of them is known of it.

A unit fails only when another pass has been faster: at a creation whose object
is there, or at an update of an object that has changed
(`Pass.Joint.Agrees.overtaken`).
-/

namespace PlanSync

/-! ## Stores pieced together -/

/-- One thing for either kind. -/
def Kind.each {α : Sort _} (terraform gitRepository : α) : Kind → α
  | .terraform => terraform
  | .gitRepository => gitRepository

namespace Memory

variable {k : Kind}

/-- A store that has the objects of either kind from a store of its own. -/
def piece (m : Kind → Memory) : Memory where
  objects :=
    ((m .gitRepository).objects.filter fun key _ => key.kind = .gitRepository).overlay
      ((m .terraform).objects.filter fun key _ => key.kind = .terraform)

theorem cell_piece (m : Kind → Memory) (key : ObjectKey) :
    (piece m).cell key = (m key.kind).cell key := by
  have hfilter : ∀ k, ((m k).objects.filter fun key _ => key.kind = k).get? key
      = if key.kind = k then (m k).cell key else none := fun k => by
    refine (Entries.lookup_filter (fun key => decide (key.kind = k)) key (m k).objects.entries).trans ?_
    simp only [decide_eq_true_eq]
    rfl
  unfold cell piece
  rw [SortedMap.get?_overlay, hfilter, hfilter]
  obtain ⟨_ | _, ns, name⟩ := key
  · rw [if_pos rfl, if_neg (by simp), Option.or_none]
    rfl
  · rw [if_neg (by simp), if_pos rfl, Option.none_or]
    rfl

theorem Sound.piece {m : Kind → Memory} (h : ∀ k, (m k).Sound) : (piece m).Sound := by
  intro key j hj
  rw [cell_piece] at hj
  exact h key.kind key j hj

/-- **What was attained is attained piece by piece.** -/
theorem Attains.piece {m₀ : Memory} {m : Kind → Memory} {steps : Kind → Step → Prop}
    (h : ∀ k, m₀.Attains (steps k) (m k)) :
    m₀.Attains (fun s => steps s.key.kind s) (piece m) where
  frame key hkey := by
    rw [cell_piece]
    refine (h key.kind).frame key fun s hs heq => ?_
    subst heq
    exact hkey s hs rfl
  left s hs := by
    rw [cell_piece]
    exact (h s.key.kind).left s hs

/-- **A listing depends on the cells of its kind and namespace alone.** -/
theorem list_congr {m m' : Memory} {namespaceName : String}
    (h : ∀ name, m.cell ⟨k, namespaceName, name⟩ = m'.cell ⟨k, namespaceName, name⟩)
    (selector : Selector) : m.list k namespaceName selector = m'.list k namespaceName selector := by
  have hfind : ∀ (m : Memory) key, List.lookup key (m.objects.entries.filter fun e =>
        e.1.kind = k && e.1.namespaceName = namespaceName)
      = if key.kind = k ∧ key.namespaceName = namespaceName then m.cell key else none :=
    fun m key => by
      refine (Entries.lookup_filter
        (fun key => decide (key.kind = k) && decide (key.namespaceName = namespaceName)) key _).trans ?_
      simp only [Bool.and_eq_true, decide_eq_true_eq]
      rfl
  unfold list valuesIn
  refine congrArg (fun es : List (ObjectKey × Json) => decodeAll k selector (es.map Prod.snd)) ?_
  refine Entries.Sorted.ext (m.objects.sorted.filter _) (m'.objects.sorted.filter _) fun key => ?_
  rw [hfind, hfind]
  split
  · next hkey =>
    obtain ⟨l, ns, name⟩ := key
    obtain ⟨rfl, rfl⟩ := hkey
    exact h name
  · rfl

end Memory

namespace Pass

variable {clock : Nat → Timestamp} {i : Input} {m₀ m m' : Memory} {wanted : DesiredState}
  {owned owned' : OwnedObjects} {done : Step → Prop}

/-- **A survey of a store that is pieced together** takes the listing of either kind
from the store that has its objects. -/
theorem surveyed_piece {seen : Kind → Memory} {ts : List Terraform} {ss : List GitRepository}
    (hwanted : i.derive? = some wanted) (hts : i.listing (seen .terraform) .terraform = .ok ts)
    (hss : i.listing (seen .gitRepository) .gitRepository = .ok ss) :
    Surveyed i (Memory.piece seen) wanted (.ofListed i.template i.source ts ss) := by
  have hlisting : ∀ k, i.listing (Memory.piece seen) k = i.listing (seen k) k := fun k =>
    Memory.list_congr (fun name => Memory.cell_piece _ ⟨k, _, name⟩) _
  exact ⟨hwanted, ts, ss, (hlisting .terraform).trans hts, (hlisting .gitRepository).trans hss, rfl⟩

/-! ## Plans with nothing in their way -/

/-- **A store in which nothing stands in the way of a plan**: wherever an object
is to be created, the store admits one. -/
structure Unobstructed (i : Input) (m₀ : Memory) (wanted : DesiredState) (owned : OwnedObjects) :
    Prop where
  readable : i.Readable
  commaFree : i.CommaFree
  telling : i.Telling
  sound : m₀.Sound
  surveyed : Surveyed i m₀ wanted owned
  admits : ∀ s, Plan.Planned wanted owned s → s.operation = .create → m₀.Admits s.key

namespace Unobstructed

variable (h : Unobstructed i m₀ wanted owned)
include h

/-- **No two steps are about one object.** -/
theorem eq_of_key {s t : Step} (hs : Plan.Planned wanted owned s)
    (ht : Plan.Planned wanted owned t) (hkey : s.key = t.key) : s = t := by
  have hnot : ∀ {c d : Step}, Plan.Planned wanted owned c → Plan.Planned wanted owned d →
      c.key = d.key → c.operation = .create → d.operation = .delete → False :=
    fun hc hd hkey hcreate hdelete =>
      Plan.cell_of_delete h.sound h.surveyed hd hdelete (hkey ▸ (h.admits _ hc hcreate).2)
  rcases hs.eq_or h.sound h.surveyed ht hkey with heq | ⟨hcreate, hdelete⟩ | ⟨hdelete, hcreate⟩
  · exact heq
  · exact (hnot hs ht hkey hcreate hdelete).elim
  · exact (hnot ht hs hkey.symm hcreate hdelete).elim

/-- Every step lasts. -/
theorem lasting {s : Step} (hs : Plan.Planned wanted owned s) : Plan.Lasting wanted owned s :=
  ⟨hs, fun hdelete t ht hcreate hkey => by
    rw [h.eq_of_key ht hs hkey, hdelete] at hcreate
    cases hcreate⟩

/-- Where a step was not done, its cell is as it was. -/
theorem cell_eq (hattains : m₀.Attains done m) (hdone : ∀ s, done s → Plan.Planned wanted owned s)
    {s : Step} (hs : Plan.Planned wanted owned s) (hnot : ¬ done s) :
    m.cell s.key = m₀.cell s.key :=
  hattains.frame _ fun t ht hkey => hnot (h.eq_of_key (hdone t ht) hs hkey ▸ ht)

/-- **A pass plans those steps that it does not find done.** -/
theorem planned_iff (hm : m.Sound) (hattains : m₀.Attains done m)
    (hdone : ∀ s, done s → Plan.Planned wanted owned s) (h' : Surveyed i m wanted owned')
    {s : Step} : Plan.Planned wanted owned' s ↔ Plan.Planned wanted owned s ∧ ¬ done s := by
  have hsame : m.cell s.key = m₀.cell s.key →
      (Plan.Planned wanted owned' s ↔ Plan.Planned wanted owned s) :=
    h.surveyed.planned_iff h.sound hm h'
  constructor
  · intro hs
    -- about an object for which a step was done nothing is planned
    have hnot : ∀ t, done t → t.key ≠ s.key := by
      intro t ht hkey
      have hleaves := hattains.left t ht
      by_cases hop : t.operation = .delete
      · have hnone : m.cell t.key = none := by
          cases t with
          | create | update => cases hop
          | delete => exact hleaves
        exact h.surveyed.key_ne_of_deleted h.sound hm h' (h.lasting (hdone t ht)) hop hnone hs
          hkey.symm
      · obtain ⟨k, id, pair, o, hp, ho, hkey', hderived, hconverged, -⟩ :=
          h.surveyed.exists_half_of_leaves h.sound h.readable (hdone t ht) hop hleaves
        have htold := standing_of_covers h.telling h.surveyed.derived hp (hkey'.trans hderived)
          hconverged.covers
        exact Surveyed.key_ne_of_converged hm h.commaFree h' hp ho (hkey'.trans hderived)
          hconverged htold hs (hkey.symm.trans hkey'.symm)
    exact ⟨(hsame (hattains.frame _ hnot)).mp hs, fun hs' => hnot s hs' rfl⟩
  · rintro ⟨hs, hnot⟩
    exact (hsame (h.cell_eq hattains hdone hs hnot)).mpr hs

/-- **The namespace can be listed at any time.** -/
theorem exists_surveyed (hattains : m₀.Attains done m)
    (hdone : ∀ s, done s → Plan.Planned wanted owned s) :
    ∃ owned', Surveyed i m wanted owned' := by
  refine h.surveyed.exists_of_cells h.sound h.readable fun key => ?_
  by_cases htouched : ∃ s, done s ∧ s.key = key
  · obtain ⟨s, hs, rfl⟩ := htouched
    exact .inr ⟨s, hdone s hs, rfl, hattains.left s hs⟩
  · exact .inl (hattains.frame key fun s hs hkey => htouched ⟨s, hs, hkey⟩)

/-- **A step that was not done can be done.** -/
theorem can (hattains : m₀.Attains done m) (hdone : ∀ s, done s → Plan.Planned wanted owned s)
    {s : Step} (hs : Plan.Planned wanted owned s) (hnot : ¬ done s) : s.Can m := by
  have hsame := h.cell_eq hattains hdone hs hnot
  cases s with
  | create k o =>
    obtain ⟨hkey, hnone⟩ := h.admits _ hs rfl
    exact ⟨hkey, hsame.trans hnone⟩
  | update k current updated => exact Progressed.can_update_of_cell_eq h.sound h.surveyed hs hsame
  | delete key => trivial

/-- **What was found done gives way to nobody**: a step that is refused although
it was planned comes too late, as a creation of what is there, or as an update of
what has changed. -/
theorem answer_of_leaves (hm : m.Sound) {s : Step} (hs : Plan.Planned wanted owned s)
    (hleaves : s.Leaves (m.cell s.key)) {e : StoreError}
    (hanswer : s.answer (m.cell s.key) = .error e) :
    (s.operation = .create ∧ e.category = .alreadyExists)
      ∨ (s.operation = .update ∧ e.category = .conflict) := by
  cases s with
  | delete key => cases hanswer
  | create k o =>
    left
    obtain ⟨j, hj, -⟩ := hleaves
    rw [show m.cell (Step.create k o).key = some j from hj,
      Step.answer_create_of_some (hm _ _ hj).1] at hanswer
    cases hanswer
    exact ⟨rfl, rfl⟩
  | update k current o =>
    right
    obtain ⟨l, id, pair, o', -, ⟨j, hj, hdecode⟩, hkey, -⟩ :=
      h.surveyed.exists_half_of_leaves h.sound h.readable hs (fun h => by cases h) hleaves
    obtain rfl : l = k := congrArg ObjectKey.kind hkey
    rw [show o'.key = o.key from hkey] at hj
    rw [show m.cell (Step.update l current o).key = some j from hj,
      Step.answer_update_of_some (hm _ _ hj).1 hdecode] at hanswer
    unfold Memory.checkVersion at hanswer
    split at hanswer
    · cases hanswer
    · split at hanswer
      · cases hanswer
      · cases hanswer
        exact ⟨rfl, rfl⟩

end Unobstructed

end Pass

/-! ## Units -/

namespace UnitRun

/-- **A unit has done a step**: one of its steps that come before those that are
still to come. -/
def HasDone (u : UnitRun) (s : Step) : Prop :=
  ∃ before, u.change.steps = before ++ u.remaining ∧ s ∈ before

variable {u : UnitRun}

theorem hasDone_iff {before : List Step} (h : u.change.steps = before ++ u.remaining) {s : Step} :
    u.HasDone s ↔ s ∈ before := by
  refine ⟨fun ⟨before', h', hs⟩ => ?_, fun hs => ⟨before, h, hs⟩⟩
  exact List.append_cancel_right (h'.symm.trans h) ▸ hs

theorem not_hasDone_start (c : BranchChange) (s : Step) : ¬ (start c).HasDone s := fun h => by
  cases (hasDone_iff (u := start c) (List.nil_append c.steps).symm).mp h

theorem hasDone_after_ok (h : Pass.Orderly u) {step : Step} {rest : List Step}
    (hnext : u.remaining = step :: rest) (s : Step) :
    (u.after step rest (.ok ())).HasDone s ↔ u.HasDone s ∨ s = step := by
  obtain ⟨before, hbefore⟩ := h.ahead
  have hafter : (u.after step rest (.ok ())).change.steps = (before ++ [step]) ++ rest := by
    show u.change.steps = _
    rw [hbefore, hnext, List.append_assoc, List.singleton_append]
  rw [hasDone_iff hafter, hasDone_iff hbefore, List.mem_append, List.mem_singleton]

end UnitRun

namespace Pass

/-! ## The machine -/

/-- **Passes that run at the same time** against one store in memory. All are
given the same inputs; they are told apart by their names. -/
structure Joint (ι : Type) where
  stage : ι → Stage := fun _ => .begun
  state : Memory

namespace Joint

variable {ι : Type} [DecidableEq ι]

/-- The pass of the given name has moved on. -/
def move (r : Joint ι) (p : ι) (moved : Stage × Memory) : Joint ι where
  stage q := if q = p then moved.1 else r.stage q
  state := moved.2

/-- **One more call**, of the pass with the given name. While that pass applies
its plan, the unit at the given place issues it. -/
def next (clock : Nat → Timestamp) (i : Input) (r : Joint ι) (call : ι × Nat) : Joint ι :=
  r.move call.1 ((r.stage call.1).advance (Memory.store clock) false i call.2 r.state)

/-- **Passes run at the same time**, with their calls in a given order. -/
def inMemory (clock : Nat → Timestamp) (i : Input) (m : Memory) (calls : List (ι × Nat)) :
    Joint ι :=
  calls.foldl (next clock i) { state := m }

theorem stage_move_self (r : Joint ι) (p : ι) (moved : Stage × Memory) :
    (r.move p moved).stage p = moved.1 := if_pos rfl

theorem stage_move_of_ne (r : Joint ι) {p q : ι} (moved : Stage × Memory) (h : q ≠ p) :
    (r.move p moved).stage q = r.stage q := if_neg h

end Joint

/-! ## What has been done -/

/-- **A pass has done a step**, if one of its units has. -/
def Stage.HasDone : Stage → Step → Prop
  | applying _ units, s => ∃ u ∈ units, u.HasDone s
  | _, _ => False

/-- **A step has been done** by one of the passes. -/
def Joint.Done {ι : Type} (r : Joint ι) (s : Step) : Prop := ∃ p, (r.stage p).HasDone s

variable {clock : Nat → Timestamp} {i : Input} {m₀ m m' : Memory} {wanted : DesiredState}
  {owned owned' : OwnedObjects} {done done' : Step → Prop} {units : List UnitRun}
  {ι : Type} [DecidableEq ι] {r : Joint ι} {p : ι}

namespace Stage

variable {plan : Plan} {before later : List UnitRun} {u : UnitRun} {step : Step} {rest : List Step}

/-- **A unit has come to the end of its next step**, and that is what its pass has
done more. -/
theorem hasDone_after_ok (h : Orderly u) (hnext : u.remaining = step :: rest) (s : Step) :
    (applying plan (before ++ u.after step rest (.ok ()) :: later)).HasDone s
      ↔ (applying plan (before ++ u :: later)).HasDone s ∨ s = step := by
  have hunit := UnitRun.hasDone_after_ok h hnext s
  simp only [HasDone, List.mem_append, List.mem_cons, or_and_right, exists_or, exists_eq_left,
    hunit]
  grind

/-- A unit that fails has done no more. -/
theorem hasDone_after_error (step : Step) (rest : List Step) (e : StoreError) (s : Step) :
    (applying plan (before ++ u.after step rest (.error e) :: later)).HasDone s
      ↔ (applying plan (before ++ u :: later)).HasDone s := by
  have hunit : (u.after step rest (.error e)).HasDone s ↔ u.HasDone s := Iff.rfl
  simp only [HasDone, List.mem_append, List.mem_cons, or_and_right, exists_or, exists_eq_left,
    hunit]

end Stage

/-- What has been done when one pass has moved on. -/
theorem Joint.done_move {moved : Stage × Memory} {new : Step → Prop}
    (hnew : ∀ s, moved.1.HasDone s ↔ (r.stage p).HasDone s ∨ new s) (s : Step) :
    (r.move p moved).Done s ↔ r.Done s ∨ new s := by
  have hother : ∀ {q}, q ≠ p → ((r.move p moved).stage q = r.stage q) := r.stage_move_of_ne moved
  have hself : (r.move p moved).stage p = moved.1 := r.stage_move_self p moved
  constructor
  · rintro ⟨q, hq⟩
    by_cases hqp : q = p
    · rw [hqp, hself, hnew] at hq
      exact hq.imp_left fun h => ⟨p, h⟩
    · rw [hother hqp] at hq
      exact .inl ⟨q, hq⟩
  · rintro (⟨q, hq⟩ | hs)
    · by_cases hqp : q = p
      · exact ⟨p, hself ▸ (hnew s).mpr (.inl (hqp ▸ hq))⟩
      · exact ⟨q, (hother hqp).symm ▸ hq⟩
    · exact ⟨p, hself ▸ (hnew s).mpr (.inr hs)⟩

/-! ## On course -/

/-- **A failure of a step that came too late**: another pass has created the
object, or changed it. -/
def Overtaken (f : ApplyFailure) : Prop :=
  (f.operation = .create ∧ f.error.category = .alreadyExists)
    ∨ (f.operation = .update ∧ f.error.category = .conflict)

/-- A deletion never comes too late. -/
theorem Overtaken.ne_delete {u : UnitRun} {step : Step} {e : StoreError}
    (h : Overtaken (u.failureAt step e)) : step.operation ≠ .delete := by
  intro hdelete
  have hop : (u.failureAt step e).operation = .delete := hdelete
  rcases h with ⟨hcreate, -⟩ | ⟨hupdate, -⟩
  · cases hcreate.symm.trans hop
  · cases hupdate.symm.trans hop

/-- **A pass is on course beside others**, given what has been done by now. What
it has listed it found in stores that had nothing more done to them, and its
units have failed only at steps that somebody had done. -/
inductive OnCourse (i : Input) (m₀ : Memory) (wanted : DesiredState) (done : Step → Prop) :
    Stage → Prop
  | begun : OnCourse i m₀ wanted done .begun
  | listing {ts : List Terraform} {m : Memory} {seen : Step → Prop}
      (hts : i.listing m .terraform = .ok ts) (hm : m.Sound) (hattains : m₀.Attains seen m)
      (hseen : ∀ s, seen s → done s) : OnCourse i m₀ wanted done (.listing wanted ts)
  | applying {owned : OwnedObjects} {m : Memory} {seen : Step → Prop} {units : List UnitRun}
      (hsurveyed : Surveyed i m wanted owned) (hm : m.Sound) (hattains : m₀.Attains seen m)
      (hseen : ∀ s, seen s → done s)
      (hchanges : units.map UnitRun.change = (Plan.compute wanted owned).changes)
      (horderly : ∀ u ∈ units, Orderly u)
      (hfailed : ∀ u ∈ units, ∀ f, u.failure = some f →
        (∀ step ∈ u.remaining.head?, done step) ∧ Overtaken f) :
    OnCourse i m₀ wanted done (.applying (.compute wanted owned) units)

/-- What has been done by now will have been done. -/
theorem OnCourse.mono {stage : Stage} (h : OnCourse i m₀ wanted done stage)
    (hdone : ∀ s, done s → done' s) : OnCourse i m₀ wanted done' stage := by
  cases h with
  | begun => exact .begun
  | listing hts hm hattains hseen =>
    exact .listing hts hm hattains fun s hs => hdone s (hseen s hs)
  | applying hsurveyed hm hattains hseen hchanges horderly hfailed =>
    refine .applying hsurveyed hm hattains (fun s hs => hdone s (hseen s hs)) hchanges horderly ?_
    exact fun u hu f hf => (hfailed u hu f hf).imp_left fun h step hstep => hdone step (h step hstep)

namespace OnCourse

variable {plan : Plan} {before later : List UnitRun} {u : UnitRun} {step : Step} {rest : List Step}

theorem orderly (h : OnCourse i m₀ wanted done (.applying plan units)) :
    ∀ u ∈ units, Orderly u := by
  cases h with
  | applying _ _ _ _ _ horderly _ => exact horderly

/-- **The next step of a unit** is a step of the one plan. -/
theorem planned_next (hu : Unobstructed i m₀ wanted owned)
    (hplanned : ∀ s, done s → Plan.Planned wanted owned s)
    (h : OnCourse i m₀ wanted done (.applying plan (before ++ u :: later)))
    (hnext : u.remaining = step :: rest) : Plan.Planned wanted owned step := by
  cases h with
  | @applying owned' m seen _ hsurveyed hm hattains hseen hchanges horderly _ =>
    have hmem : u ∈ before ++ u :: later := List.mem_append_cons_self
    obtain ⟨ahead, hsteps⟩ := (horderly u hmem).ahead
    have hstep : Plan.Planned wanted owned' step := by
      refine Plan.mem_steps.mp (List.mem_flatMap.mpr ⟨u.change, ?_, ?_⟩)
      · rw [← hchanges]
        exact List.mem_map_of_mem hmem
      · rw [hsteps, hnext]
        exact List.mem_append_cons_self
    have hseen : ∀ s, seen s → Plan.Planned wanted owned s := fun s hs => hplanned s (hseen s hs)
    exact ((hu.planned_iff hm hattains hseen hsurveyed).mp hstep).1

/-- **A pass stays on course** when a unit has come to its next step, provided that
it fails at it only if somebody has done it. -/
theorem after (h : OnCourse i m₀ wanted done (.applying plan (before ++ u :: later)))
    (hready : u.failure = none) (hnext : u.remaining = step :: rest)
    (answer : Except StoreError Unit) (hdone : ∀ s, done s → done' s)
    (hfailure : ∀ f, (u.after step rest answer).failure = some f → done' step ∧ Overtaken f) :
    OnCourse i m₀ wanted done' (.applying plan (before ++ u.after step rest answer :: later)) := by
  cases h.mono hdone with
  | applying hsurveyed hm hattains hseen hchanges horderly hfailed =>
    refine .applying hsurveyed hm hattains hseen ?_
      (forall_mem_split horderly ((horderly u List.mem_append_cons_self).after hready hnext answer))
      (forall_mem_split hfailed fun f hf => ?_)
    · rw [← hchanges, List.map_append, List.map_append, List.map_cons, List.map_cons, change_after]
    · obtain ⟨hstep, hwhy⟩ := hfailure f hf
      refine ⟨fun t ht => ?_, hwhy⟩
      -- a unit that fails stays at the step it fails at
      cases answer with
      | ok _ => cases hready.symm.trans hf
      | error e =>
        have ht : u.remaining.head? = some t := ht
        rw [hnext] at ht
        exact Option.some.inj ht ▸ hstep

end OnCourse

/-- **Passes agree**: the store is what the steps done by any of them make of it,
all of these are steps of the one plan, and every pass is on course. -/
structure Joint.Agrees (i : Input) (m₀ : Memory) (wanted : DesiredState) (owned : OwnedObjects)
    (r : Joint ι) : Prop where
  sound : r.state.Sound
  attains : m₀.Attains r.Done r.state
  planned : ∀ s, r.Done s → Plan.Planned wanted owned s
  stages : ∀ p, OnCourse i m₀ wanted r.Done (r.stage p)

namespace Joint.Agrees

variable (h : r.Agrees i m₀ wanted owned)
include h

/-- **A pass has moved on**, and may have done new steps. -/
theorem move (new : Step → Prop) {moved : Stage × Memory} (hsound : moved.2.Sound)
    (hnew : ∀ s, moved.1.HasDone s ↔ (r.stage p).HasDone s ∨ new s)
    (hplanned : ∀ s, new s → Plan.Planned wanted owned s)
    (hattains : m₀.Attains (fun s => r.Done s ∨ new s) moved.2)
    (hstage : OnCourse i m₀ wanted (fun s => r.Done s ∨ new s) moved.1) :
    (r.move p moved).Agrees i m₀ wanted owned := by
  have hdone : (r.move p moved).Done = fun s => r.Done s ∨ new s :=
    funext fun s => propext (done_move hnew s)
  refine ⟨hsound, hdone ▸ hattains, fun s hs => ?_, fun q => ?_⟩
  · rw [hdone] at hs
    exact hs.elim (h.planned s) (hplanned s)
  · rw [hdone]
    by_cases hqp : q = p
    · rw [hqp, stage_move_self]
      exact hstage
    · rw [r.stage_move_of_ne moved hqp]
      exact (h.stages q).mono fun s => .inl

/-- **A pass has moved on without writing.** -/
theorem move_idle {stage : Stage} (hnew : ∀ s, stage.HasDone s ↔ (r.stage p).HasDone s)
    (hstage : OnCourse i m₀ wanted r.Done stage) :
    (r.move p (stage, r.state)).Agrees i m₀ wanted owned := by
  have hdone : (fun s => r.Done s ∨ False) = r.Done := funext fun s => or_false (r.Done s)
  refine h.move (fun _ => False) h.sound (fun s => ?_) (fun _ hs => hs.elim) ?_ ?_
  · rw [or_false, hnew]
  · rw [hdone]
    exact h.attains
  · rw [hdone]
    exact hstage

variable (hu : Unobstructed i m₀ wanted owned)
include hu

/-- The first listing. -/
theorem next_begun (hp : r.stage p = .begun) (place : Nat) :
    (r.move p (Stage.begun.advance (Memory.store clock) false i place r.state)).Agrees
      i m₀ wanted owned := by
  obtain ⟨owned', hs⟩ := hu.exists_surveyed h.attains h.planned
  obtain ⟨ts, ss, hts, -⟩ := hs.listed
  have hadvance : Stage.begun.advance (Memory.store clock) false i place r.state
      = (.listing wanted ts, r.state) := by
    have hlist : ((Memory.store clock).list .terraform i.template.namespaceName
        (ownerSelector i.template.name) r.state).result = .ok ts := hts
    simp only [Stage.advance, Bool.false_eq_true, if_false, desired_eq, hu.surveyed.derived,
      hlist]
    rfl
  rw [hadvance]
  refine h.move_idle (fun s => ?_) (.listing hts h.sound h.attains fun _ => id)
  rw [hp]
  exact Iff.rfl

/-- The second listing, after which the plan is made. -/
theorem next_listing {ts : List Terraform} {m : Memory} {seen : Step → Prop}
    (hp : r.stage p = .listing wanted ts) (hts : i.listing m .terraform = .ok ts) (hm : m.Sound)
    (hattains : m₀.Attains seen m) (hseen : ∀ s, seen s → r.Done s) (place : Nat) :
    (r.move p ((Stage.listing wanted ts).advance (Memory.store clock) false i place r.state)).Agrees
      i m₀ wanted owned := by
  obtain ⟨owned', hs⟩ := hu.exists_surveyed h.attains h.planned
  obtain ⟨-, ss, -, hss, -⟩ := hs.listed
  have hadvance : (Stage.listing wanted ts).advance (Memory.store clock) false i place r.state
      = (.applying (.compute wanted (.ofListed i.template i.source ts ss))
          ((Plan.compute wanted (.ofListed i.template i.source ts ss)).changes.map .start),
        r.state) := by
    have hlist : ((Memory.store clock).list .gitRepository i.template.namespaceName
        (ownerSelector i.template.name) r.state).result = .ok ss := hss
    simp only [Stage.advance, hlist]
    rfl
  rw [hadvance]
  -- the plan is made for configurations as they were, and sources as they are
  have hpieces : ∀ k, m₀.Attains (Kind.each seen r.Done k) (Kind.each m r.state k) := fun k => by
    cases k with
    | terraform => exact hattains
    | gitRepository => exact h.attains
  have hsound : ∀ k, (Kind.each m r.state k).Sound := fun k => by
    cases k with
    | terraform => exact hm
    | gitRepository => exact h.sound
  have hsurveyed : Surveyed i (Memory.piece (Kind.each m r.state)) wanted
      (.ofListed i.template i.source ts ss) := surveyed_piece hu.surveyed.derived hts hss
  refine h.move_idle (fun s => ?_) (.applying hsurveyed
    (.piece hsound) (.piece hpieces) (fun s hs => ?_) ?_ (fun u hu => ?_) fun u hu f hf => ?_)
  · rw [hp]
    refine ⟨fun hdone => ?_, fun hs => hs.elim⟩
    obtain ⟨u, hu, hs⟩ := hdone
    obtain ⟨c, -, rfl⟩ := List.mem_map.mp hu
    exact UnitRun.not_hasDone_start c s hs
  · have hsteps : ∀ k, Kind.each seen r.Done k s → r.Done s := fun k => by
      cases k with
      | terraform => exact hseen s
      | gitRepository => exact id
    exact hsteps _ hs
  · rw [List.map_map]
    exact List.map_id _
  · obtain ⟨c, -, rfl⟩ := List.mem_map.mp hu
    exact orderly_start c
  · obtain ⟨c, -, rfl⟩ := List.mem_map.mp hu
    cases hf

omit [DecidableEq ι] in
/-- **A step that is planned and refused had been done**, by somebody else. -/
theorem overtaken (hclock : ∀ n, (clock n).ReadsBack) {step : Step}
    (hstep : Plan.Planned wanted owned step) {e : StoreError}
    (herror : (step.run (Memory.store clock) (fun _ => false) r.state).result = .error e) :
    r.Done step ∧ (step.run (Memory.store clock) (fun _ => false) r.state).state = r.state
      ∧ ((step.operation = .create ∧ e.category = .alreadyExists)
        ∨ (step.operation = .update ∧ e.category = .conflict)) := by
  rcases Step.run_cases hclock h.sound (fun _ => false) rfl step with
    ⟨hok, -⟩ | ⟨_, -, hsame, hcannot⟩
  · cases hok.symm.trans herror
  · have hdone : r.Done step := by
      by_contra hnot
      exact hcannot (hu.can h.attains h.planned hstep hnot)
    refine ⟨hdone, hsame, ?_⟩
    exact hu.answer_of_leaves h.sound hstep (h.attains.left step hdone) (Step.answer_of_error herror)

/-- **A unit comes to its next step.** -/
theorem next_unit (hclock : ∀ n, (clock n).ReadsBack) {plan : Plan} {before later : List UnitRun}
    {u : UnitRun} {step : Step} {rest : List Step}
    (hp : r.stage p = .applying plan (before ++ u :: later)) (hready : u.failure = none)
    (hnext : u.remaining = step :: rest) :
    let result := step.run (Memory.store clock) (fun _ => false) r.state
    (r.move p (.applying plan (before ++ u.after step rest result.result :: later),
      result.state)).Agrees i m₀ wanted owned := by
  intro result
  have hcourse : OnCourse i m₀ wanted r.Done (.applying plan (before ++ u :: later)) :=
    hp ▸ h.stages p
  have hstep := hcourse.planned_next hu h.planned hnext
  rcases Step.run_cases hclock h.sound (fun _ => false) rfl step with
    ⟨hok, hdoes, hsound⟩ | ⟨e, herror, -, -⟩
  · rw [show result.result = .ok () from hok]
    refine h.move (fun s => s = step) hsound (fun s => ?_) (fun s hs => hs ▸ hstep)
      ⟨fun key hkey => ?_, fun s hs => ?_⟩
      (hcourse.after hready hnext _ (fun s => .inl) fun f hf => by cases hready.symm.trans hf)
    · rw [hp]
      exact Stage.hasDone_after_ok (hcourse.orderly u List.mem_append_cons_self) hnext s
    · rw [hdoes.frame key (hkey step (.inr rfl)).symm]
      exact h.attains.frame key fun s hs => hkey s (.inl hs)
    -- no step but this one is about its object
    · by_cases hkey : s.key = step.key
      · have hplanned : Plan.Planned wanted owned s := hs.elim (h.planned s) fun hs => hs ▸ hstep
        rw [hu.eq_of_key hplanned hstep hkey]
        exact hdoes.left
      · rw [hdoes.frame s.key hkey]
        exact h.attains.left s (hs.resolve_right fun hs => hkey (congrArg Step.key hs))
  · obtain ⟨hdone, hsame, hwhy⟩ := h.overtaken hu hclock hstep herror
    rw [show result.result = .error e from herror, show result.state = r.state from hsame]
    refine h.move_idle (fun s => ?_) (hcourse.after hready hnext _ (fun _ => id) fun f hf => ?_)
    · rw [hp]
      exact Stage.hasDone_after_error step rest e s
    · cases hf
      exact ⟨hdone, hwhy⟩

/-- **Every call keeps the passes in agreement.** -/
theorem next (hclock : ∀ n, (clock n).ReadsBack) (call : ι × Nat) :
    (r.next clock i call).Agrees i m₀ wanted owned := by
  obtain ⟨p, place⟩ := call
  show (r.move p ((r.stage p).advance (Memory.store clock) false i place r.state)).Agrees _ _ _ _
  have hcourse := h.stages p
  cases hp : r.stage p with
  | begun => exact h.next_begun hu hp place
  | listing wanted' ts =>
    rw [hp] at hcourse
    cases hcourse with
    | listing hts hm hattains hseen => exact h.next_listing hu hp hts hm hattains hseen place
  | refused e =>
    rw [hp] at hcourse
    cases hcourse
  | applying plan units =>
    rw [hp] at hcourse
    rcases advance_applying (Memory.store clock) i false plan units place r.state with
      hidle | ⟨before, later, u, step, rest, rfl, hready, hnext, hadvance⟩
    · rw [hidle]
      exact h.move_idle (fun s => by rw [hp]) hcourse
    · rw [hadvance]
      exact h.next_unit hu hclock hp hready hnext

end Joint.Agrees

/-- **What holds at every moment of passes that run at the same time.** -/
theorem Joint.agrees_inMemory (hu : Unobstructed i m₀ wanted owned)
    (hclock : ∀ n, (clock n).ReadsBack) (calls : List (ι × Nat)) :
    (Joint.inMemory clock i m₀ calls).Agrees i m₀ wanted owned := by
  have hstart : Joint.Agrees i m₀ wanted owned ({ state := m₀ } : Joint ι) := by
    have hnone : ∀ s, ¬ ({ state := m₀ } : Joint ι).Done s := fun s ⟨p, hp⟩ => hp
    exact ⟨hu.sound, ⟨fun _ _ => rfl, fun s hs => (hnone s hs).elim⟩,
      fun s hs => (hnone s hs).elim, fun _ => .begun⟩
  unfold Joint.inMemory
  generalize ({ state := m₀ } : Joint ι) = r at hstart
  induction calls generalizing r with
  | nil => exact hstart
  | cons call calls ih => exact ih _ (hstart.next hu hclock call)

end Pass

end PlanSync
