import Mathlib.Data.List.Nodup
import PlanSync.Proofs.Pass.Frame
import PlanSync.Proofs.Pass.Recovery

/-!
# Passes of different templates

Passes of different templates commute, if none of their calls fails: whichever goes
first, the same plans are made and the same objects are left
(`Pass.passes_commute`). The templates may share a namespace, a source and the
beginning of their names.

Neither pass changes what the other lists, for what a pass writes or deletes bears
the name of its template in a label (`Pass.Reached.holds_iff`). So each makes the
plan that it would have made if the other had not run (`Pass.Through.plan_eq`).
That labels keep them apart does not keep their names apart, and both may ask for
one name. Then the pass that comes second is refused the name, whichever it is; so
if no call fails in either order, the steps of both are about different objects
(`Pass.Through.key_ne`).
-/

namespace PlanSync

namespace Memory

/-- **What is attained first and what is attained after it** are attained together,
if they are about different objects. -/
theorem Attains.append {m m' m'' : Memory} {steps steps' : Step → Prop} (h : m.Attains steps m')
    (h' : m'.Attains steps' m'') (hdisjoint : ∀ s t, steps s → steps' t → s.key ≠ t.key) :
    m.Attains (fun s => steps s ∨ steps' s) m'' where
  frame key hkey := by
    rw [h'.frame key fun s hs => hkey s (.inr hs)]
    exact h.frame key fun s hs => hkey s (.inl hs)
  left s hs := by
    rcases hs with hs | hs
    · rw [h'.frame s.key fun t ht heq => hdisjoint s t hs ht heq.symm]
      exact h.left s hs
    · exact h'.left s hs

theorem Attains.congr {m m' : Memory} {steps steps' : Step → Prop} (h : m.Attains steps m')
    (hiff : ∀ s, steps s ↔ steps' s) : m.Attains steps' m' where
  frame key hkey := h.frame key fun s hs => hkey s ((hiff s).mp hs)
  left s hs := h.left s ((hiff s).mpr hs)

/-- **One listing for each store**: two listings with the same objects are equal. -/
theorem list_unique {k : Kind} {m m' : Memory} (hm : m.Sound) (hm' : m'.Sound)
    {namespaceName : String} {selector : Selector} {os os' : List (Object k)}
    (h : m.list k namespaceName selector = .ok os) (h' : m'.list k namespaceName selector = .ok os')
    (hsame : ∀ o, o ∈ os ↔ o ∈ os') : os = os' := by
  have hnodup : ∀ {m : Memory} {os : List (Object k)}, m.Sound →
      m.list k namespaceName selector = .ok os → os.Nodup := fun hm h =>
    List.Nodup.of_map Object.key (nodup_list hm h)
  have hperm : os.Perm os' :=
    (List.perm_ext_iff_of_nodup (hnodup hm h) (hnodup hm' h')).mpr hsame
  refine hperm.eq_of_pairwise (fun a b _ _ hab hba => ?_)
    (List.pairwise_map.mp (sorted_list hm h)) (List.pairwise_map.mp (sorted_list hm' h'))
  exact absurd (Std.lt_trans hab hba) Std.lt_irrefl

end Memory

namespace Pass

variable {clock : Nat → Timestamp} {i j : Input} {m₀ m m' : Memory} {wanted wanted' : DesiredState}
  {owned owned' : OwnedObjects} {events : List Event} {k : Kind} {id : BranchId}
  {pair : DesiredPair}

/-! ## What a pass leaves alone -/

/-- **What a template owns no other template lists.** -/
theorem Input.not_owns_of_bears (hne : i.template.key ≠ j.template.key) {o : Object k}
    (hns : o.namespaceName = j.template.namespaceName) (hbears : j.Bears o) : ¬ i.Owns o := by
  intro howns
  have hname : i.template.name = j.template.name :=
    Option.some.inj (howns.bears.template.symm.trans hbears.template)
  have hnamespace : i.template.namespaceName = j.template.namespaceName :=
    howns.here.symm.trans hns
  exact hne (by rw [Object.key, Object.key, hname, hnamespace])

/-- **What a step has written is owned**, even if it is not read as it was
written. -/
theorem owns_of_leaves (hm₀ : m₀.Sound) (h : Surveyed i m₀ wanted owned) {s : Step}
    (hs : Plan.Planned wanted owned s) (hleaves : s.Leaves (m.cell s.key)) {o : Object k}
    (ho : m.Holds o) (hkey : o.key = s.key) : i.Owns o := by
  -- the labels that are written are read back, and they are those of a derived half
  have howns : ∀ {k : Kind} {o written : Object k} {id : BranchId} {pair : DesiredPair},
      wanted.pairs.get? id = some pair → o.key = i.derivedKey k id → m.Holds o →
      (∃ j, m.cell o.key = some j ∧ written.StoredAs j) →
      (∀ key value, (pair.half k).labels.get? key = some value →
        written.labels.get? key = some value) → i.Owns o := by
    rintro k o written id pair hp hkey ⟨j, hj, hdecode⟩ ⟨j', hj', version, created, hc, rfl⟩ hlabels
    cases hj.symm.trans hj'
    have hmetadata : o.metadata = (written.stamped version created).metadata :=
      Object.metadata_of_decoder_stored hc (Memory.decode_eq_ok.mp hdecode)
    have hsame : o.labels = (written.stamped version created).labels :=
      congrArg Metadata.labels hmetadata
    have hbears := Input.bears_half h.derived hp k
    refine ⟨congrArg ObjectKey.namespaceName hkey, ⟨?_, ?_⟩, Input.not_itself_of_key hkey⟩
    · rw [hsame]
      exact hlabels _ _ hbears.marker
    · rw [hsame]
      exact hlabels _ _ hbears.template
  have hkind : k = s.key.kind := congrArg ObjectKey.kind hkey
  cases hs with
  | @create id pair l hp hnone =>
    obtain rfl : k = l := hkind
    exact howns hp (hkey.trans (Input.key_half h.derived hp k)) ho (hkey ▸ hleaves) fun _ _ h => h
  | @update id pair l current hp hcurrent _ =>
    obtain rfl : k = l := hkind
    have hderived : current.key = i.derivedKey k id := h.key_half hm₀ hcurrent
    exact howns hp (hkey.trans hderived) ho (hkey ▸ hleaves)
      (Object.covers_overwrite current (pair.half k)).labels
  | remove | clear =>
    exact absurd hleaves (ho.cell_ne_none hkey)

/-- **What is not owned is held after a pass exactly if it was before.** -/
theorem holds_iff_of_kept (hm₀ : m₀.Sound) (h : Surveyed i m₀ wanted owned)
    (hkept : ∀ key, Kept m₀ (.compute wanted owned) m key) {o : Object k} (hnot : ¬ i.Owns o) :
    m.Holds o ↔ m₀.Holds o := by
  constructor
  · intro ho
    rcases hkept o.key with hsame | ⟨s, hs, hkey, hleaves, -⟩
    · exact ho.of_cell_eq hsame.symm
    · exact absurd (owns_of_leaves hm₀ h (Plan.mem_steps.mp hs) (hkey ▸ hleaves) ho hkey.symm) hnot
  · rintro ⟨j, hj, hdecode⟩
    refine ⟨j, cell_of_spares hm₀ h (hkept o.key) hj fun o' ho' hkey => ?_, hdecode⟩
    rwa [ho'.unique ⟨j, hj, hdecode⟩ hkey]

/-- The same, at every moment of a pass, whatever happens to it. -/
theorem Reached.holds_iff {r : Run Memory} (hm₀ : m₀.Sound) (h : Reached i m₀ events r)
    {o : Object k} (hnot : ¬ i.Owns o) : r.state.Holds o ↔ m₀.Holds o := by
  cases h with
  | begun | listing | refused => exact Iff.rfl
  | applying _ h => exact holds_iff_of_kept hm₀ h.surveyed h.follows.kept hnot

/-- **A survey depends on the objects that bear the owner labels**, and on no
others. -/
theorem Surveyed.eq_of_holds_iff (hm : m.Sound) (hm' : m'.Sound) (h : Surveyed i m wanted owned)
    (h' : Surveyed i m' wanted' owned')
    (hsame : ∀ k (o : Object k), o.namespaceName = i.template.namespaceName → i.Bears o →
      (m.Holds o ↔ m'.Holds o)) : wanted' = wanted ∧ owned' = owned := by
  obtain ⟨ts, ss, hlisting, rfl⟩ := h.exists_listed
  obtain ⟨ts', ss', hlisting', rfl⟩ := h'.exists_listed
  have hequal : ∀ k, Input.listed ts ss k = Input.listed ts' ss' k := fun k => by
    refine Memory.list_unique hm hm' (hlisting k) (hlisting' k) fun o => ?_
    rw [Input.mem_listing hm (hlisting k), Input.mem_listing hm' (hlisting' k)]
    exact and_congr_left fun ⟨hns, hbears⟩ => hsame k o hns hbears
  obtain rfl : ts = ts' := hequal .terraform
  obtain rfl : ss = ss' := hequal .gitRepository
  exact ⟨Option.some.inj (h'.derived.symm.trans h.derived), rfl⟩

/-! ## Passes that go through -/

/-- The plan of a pass, once it is made. -/
def Stage.plan? : Stage → Option Plan
  | applying plan _ => some plan
  | _ => none

/-- **A pass has gone through**: it has come to its end, and no call has failed. Either
no step failed, or no call was made, because the source follows no branch. -/
def Run.WentThrough (i : Input) (r : Run Memory) : Prop :=
  ∃ outcome, r.stage.result? i = some outcome ∧ (NoStepFailed i outcome ∨ i.derive? = none)

/-- **A plan was carried out**: all its steps have been applied to the store in which
it was made. -/
structure CarriedOut (i : Input) (m₀ : Memory) (wanted : DesiredState) (owned : OwnedObjects)
    (r : Run Memory) : Prop where
  surveyed : Surveyed i m₀ wanted owned
  plan : r.stage.plan? = some (.compute wanted owned)
  applied : Memory.Applied m₀ (Plan.compute wanted owned).steps r.state

/-- **What a pass comes to that goes through**: its plan was carried out, or there was
nothing to survey; and what its template does not own is as it was. -/
structure Through (i : Input) (m₀ : Memory) (r : Run Memory) : Prop where
  sound : r.state.Sound
  kept : ∀ {k} {o : Object k}, ¬ i.Owns o → (r.state.Holds o ↔ m₀.Holds o)
  done : (∃ wanted owned, CarriedOut i m₀ wanted owned r)
    ∨ i.derive? = none ∧ r.state = m₀ ∧ r.stage.plan? = none

theorem Reached.through (hm₀ : m₀.Sound) (hcalm : Calm events) {r : Run Memory}
    (h : Reached i m₀ events r) (hthrough : r.WentThrough i) : Through i m₀ r := by
  refine ⟨h.sound hm₀, h.holds_iff hm₀, ?_⟩
  obtain ⟨outcome, hresult, hno⟩ := hthrough
  rcases hno with hno | hnone
  · left
    obtain ⟨wanted, owned, units, hstage, happlying, hremaining⟩ := h.of_noStepFailed hresult hno
    refine ⟨wanted, owned, happlying.surveyed, congrArg Stage.plan? hstage, ?_⟩
    exact happlying.applied_of_remaining hcalm.faultless hremaining
  · right
    cases h with
    | begun => cases hresult
    | listing _ hwanted => cases hwanted.symm.trans hnone
    | refused => exact ⟨hnone, rfl, rfl⟩
    | applying _ h => cases h.surveyed.derived.symm.trans hnone

/-- **A step was carried out where something owned stood**, or it created something
where nothing did. -/
theorem CarriedOut.found_or_new {r : Run Memory} (hm₀ : m₀.Sound)
    (h : CarriedOut i m₀ wanted owned r) {s : Step} (hs : Plan.Planned wanted owned s) :
    ¬ Spares i m₀ s.key ∨ s.operation = .create ∧ m₀.cell s.key = none := by
  cases hop : s.operation with
  | delete => exact .inl (not_spares_of_delete hm₀ h.surveyed hs hop)
  | update =>
    cases s with
    | create | delete => cases hop
    | update => exact .inl (not_spares_of_update hm₀ h.surveyed hs)
  | create =>
    rcases h.applied.order s (Plan.mem_steps.mpr hs) hop with hnone | ⟨d, hd, hdelete, hkey⟩
    · exact .inr ⟨rfl, hnone⟩
    · rw [← hkey]
      exact .inl (not_spares_of_delete hm₀ h.surveyed (Plan.mem_steps.mp hd) hdelete)

/-! ## Two templates -/

/-- The steps of the plan that a pass makes of a store, as far as they last. -/
def Lasting (i : Input) (m : Memory) (s : Step) : Prop :=
  ∃ wanted owned, Surveyed i m wanted owned ∧ Plan.Lasting wanted owned s

namespace Through

variable {r r' : Run Memory}

/-- A pass that has surveyed its store has carried out its plan. -/
theorem carriedOut (h : Through i m₀ r) (hs : Surveyed i m₀ wanted owned) :
    CarriedOut i m₀ wanted owned r := by
  rcases h.done with ⟨wanted', owned', hdone⟩ | ⟨hnone, -⟩
  · obtain ⟨rfl, rfl⟩ := hs.unique hdone.surveyed
    exact hdone
  · cases hs.derived.symm.trans hnone

/-- **A pass that goes through attains the steps of its plan.** -/
theorem attains (h : Through i m₀ r) : m₀.Attains (Lasting i m₀) r.state := by
  rcases h.done with ⟨wanted, owned, hdone⟩ | ⟨hnone, hstate, -⟩
  · have hattains := attains_of_applied hdone.applied
    refine ⟨fun key hkey => hattains.frame key fun s hs => ?_, fun s ⟨_, _, hs, hlasting⟩ => ?_⟩
    · exact hkey s ⟨wanted, owned, hdone.surveyed, hs⟩
    · obtain ⟨rfl, rfl⟩ := hdone.surveyed.unique hs
      exact hattains.left s hlasting
  · rw [hstate]
    exact ⟨fun _ _ => rfl, fun s ⟨_, _, hs, _⟩ => by cases hs.derived.symm.trans hnone⟩

section Before

variable (hne : i.template.key ≠ j.template.key) (hm : m.Sound) (hj : Through j m r)
include hne hm hj

/-- **A pass finds what it would have found** if that of the other template had not
gone before it. -/
theorem survey_eq (h : Surveyed i m wanted owned) (h' : Surveyed i r.state wanted' owned') :
    wanted' = wanted ∧ owned' = owned :=
  h.eq_of_holds_iff hm hj.sound h' fun _ _ hns hbears =>
    (hj.kept (Input.not_owns_of_bears hne.symm hns hbears)).symm

variable {a b : Run Memory} (ha : Through i m a) (hb : Through i r.state b)
include ha hb

theorem surveyed_iff : Surveyed i r.state wanted owned ↔ Surveyed i m wanted owned := by
  constructor
  · intro h
    rcases ha.done with ⟨wanted', owned', hdone⟩ | ⟨hnone, -⟩
    · obtain ⟨rfl, rfl⟩ := hj.survey_eq hne hm hdone.surveyed h
      exact hdone.surveyed
    · cases h.derived.symm.trans hnone
  · intro h
    rcases hb.done with ⟨wanted', owned', hdone⟩ | ⟨hnone, -⟩
    · obtain ⟨rfl, rfl⟩ := hj.survey_eq hne hm h hdone.surveyed
      exact hdone.surveyed
    · cases h.derived.symm.trans hnone

/-- **A pass makes the plan that it would have made** if that of the other template
had not gone before it. -/
theorem plan_eq : b.stage.plan? = a.stage.plan? := by
  rcases hb.done with ⟨wanted, owned, hdone⟩ | ⟨hnone, -, hplan⟩
  · have hdone' := ha.carriedOut ((hj.surveyed_iff hne hm ha hb).mp hdone.surveyed)
    exact hdone.plan.trans hdone'.plan.symm
  · rcases ha.done with ⟨wanted, owned, hdone⟩ | ⟨-, -, hplan'⟩
    · cases hdone.surveyed.derived.symm.trans hnone
    · exact hplan.trans hplan'.symm

theorem lasting_eq : Lasting i r.state = Lasting i m :=
  funext fun _ => propext <| exists_congr fun _ => exists_congr fun _ =>
    and_congr_left' (hj.surveyed_iff hne hm ha hb)

end Before

/-- **The steps of two passes are about different objects**, if either goes through when
it is the first, and one of them also when it is the second. -/
theorem key_ne (hne : i.template.key ≠ j.template.key) (hm : m.Sound) {a b a' : Run Memory}
    (ha : Through i m a) (hb : Through j a.state b) (ha' : Through j m a') {s t : Step}
    (hs : Lasting i m s) (ht : Lasting j m t) : s.key ≠ t.key := by
  obtain ⟨wanted, owned, hi, hs⟩ := hs
  obtain ⟨wanted', owned', hj, ht⟩ := ht
  intro hkey
  -- what one template owns the other does not
  have hexclusive : ∀ {k : Kind} {o : Object k}, i.Owns o → ¬ j.Owns o := fun hown hown' =>
    Input.not_owns_of_bears hne hown'.here hown'.bears hown
  have hdone := ha.carriedOut hi
  have hdone' := hb.carriedOut ((ha.surveyed_iff hne.symm hm ha' hb).mpr hj)
  rcases hdone.found_or_new hm hs.planned with hfound | ⟨hcreate, hnone⟩
  · rcases (ha'.carriedOut hj).found_or_new hm ht.planned with hfound' | ⟨-, hnone'⟩
    · rw [← hkey] at hfound'
      refine hfound fun o ho hokey hown => hfound' fun o' ho' hokey' hown' => ?_
      obtain rfl := ho.unique ho' (hokey.trans hokey'.symm)
      exact hexclusive hown hown'
    · refine hfound fun o ⟨c, hc, _⟩ hokey _ => ?_
      rw [hokey, hkey] at hc
      cases hnone'.symm.trans hc
  -- the second pass finds the name taken by what the first has created
  · have hleaves := hdone.applied.leaves (Plan.mem_steps.mpr hs.planned) fun hop => by
      cases hcreate.symm.trans hop
    rcases hdone'.found_or_new ha.sound ht.planned with hfound | ⟨-, hnone'⟩
    · rw [← hkey] at hfound
      refine hfound fun o ho hokey hown => ?_
      exact hexclusive (owns_of_leaves hm hi hs.planned hleaves ho hokey) hown
    · rw [hkey, hnone'] at hleaves
      cases s with
      | create =>
        obtain ⟨_, hj, -⟩ := hleaves
        cases hj
      | update | delete => cases hcreate

end Through

/-- **Passes of different templates commute.** Let a pass of either template run, and
then one of the other on what it has left, each in any order of calls; and let both
orders be tried on one store. If no call fails in any of the four passes, both orders
leave the same objects, apart from resource versions and times of creation, and each
template has the same plan in both. -/
theorem passes_commute (hclock : ∀ n, (clock n).ReadsBack) {m : Memory}
    (hm : Memory.Reachable clock m) {i j : Input} (hne : i.template.key ≠ j.template.key)
    {first second first' second' : List Event} (hfirst : Calm first) (hsecond : Calm second)
    (hfirst' : Calm first') (hsecond' : Calm second') :
    let a := Run.inMemory clock i m first
    let b := Run.inMemory clock j a.state second
    let a' := Run.inMemory clock j m first'
    let b' := Run.inMemory clock i a'.state second'
    a.WentThrough i → b.WentThrough j → a'.WentThrough j → b'.WentThrough i →
      b.state.SameContent b'.state
        ∧ b'.stage.plan? = a.stage.plan? ∧ b.stage.plan? = a'.stage.plan? := by
  intro a b a' b' hwent hwent₂ hwent' hwent₂'
  have hsound := hm.sound hclock
  have hgo : ∀ {i : Input} {m : Memory} {events : List Event}, m.Sound → Calm events →
      (Run.inMemory clock i m events).WentThrough i →
      Through i m (Run.inMemory clock i m events) := fun hm hcalm =>
    (Reached.inMemory hclock hm _ _).through hm hcalm
  have ha : Through i m a := hgo hsound hfirst hwent
  have hb : Through j a.state b := hgo ha.sound hsecond hwent₂
  have ha' : Through j m a' := hgo hsound hfirst' hwent'
  have hb' : Through i a'.state b' := hgo ha'.sound hsecond' hwent₂'
  refine ⟨?_, ha'.plan_eq hne hsound ha hb', ha.plan_eq hne.symm hsound ha' hb⟩
  -- the store that either order leaves attains the steps of both plans
  have hlasting := ha.lasting_eq hne.symm hsound ha' hb
  have hlasting' := ha'.lasting_eq hne hsound ha hb'
  have hdisjoint : ∀ s t, Lasting i m s → Lasting j m t → s.key ≠ t.key :=
    fun _ _ => ha.key_ne hne hsound hb ha'
  have hattains : m.Attains (fun s => Lasting i m s ∨ Lasting j m s) b.state :=
    ha.attains.append (hlasting ▸ hb.attains) hdisjoint
  have hattains' : m.Attains (fun s => Lasting j m s ∨ Lasting i m s) b'.state :=
    ha'.attains.append (hlasting' ▸ hb'.attains) fun t s ht hs => (hdisjoint s t hs ht).symm
  exact hattains.sameContent (hattains'.congr fun _ => Or.comm)

/-- A template whose name begins with that of `sampleInput`, with the same source. -/
def longerInput : Input where
  template :=
    { metadata := { name := "plan-topic", namespaceName := "team" }
      spec := ({ sourceRef := { kind := "GitRepository", name := "repo" } } : TerraformSpec) }
  source := sampleInput.source
  pullRequests :=
    [{ repository := { org := "org", name := "repo" }, number := 8, baseBranch := "main",
       headBranch := "other" }]

/-- Two templates that share a source and a prefix commute on a store with a stray. -/
theorem passes_commute_sharing_a_prefix :
    let turns := [0, 0, 1, 0, 0].map Event.turn
    let turns' := [0, 0, 0, 0].map Event.turn
    let a := Run.inMemory stoppedClock sampleInput strayedMemory turns
    let b := Run.inMemory stoppedClock longerInput a.state turns'
    let a' := Run.inMemory stoppedClock longerInput strayedMemory turns'
    let b' := Run.inMemory stoppedClock sampleInput a'.state turns
    (b.stage.result? longerInput = some (.ok { created := 2 })
        ∧ b'.stage.result? sampleInput = some (.ok { created := 2, deleted := 1 }))
      ∧ b.state.SameContent b'.state
        ∧ b'.stage.plan? = a.stage.plan? ∧ b.stage.plan? = a'.stage.plan? := by
  intro turns turns' a b a' b'
  have hruns : (a.stage.result? sampleInput).bind Except.toOption
        = some { created := 2, deleted := 1 }
      ∧ (b.stage.result? longerInput).bind Except.toOption = some { created := 2 }
      ∧ (a'.stage.result? longerInput).bind Except.toOption = some { created := 2 }
      ∧ (b'.stage.result? sampleInput).bind Except.toOption
        = some { created := 2, deleted := 1 } := by
    decide +kernel
  have ha := Answer.eq_ok_of_toOption hruns.1
  have hb := Answer.eq_ok_of_toOption hruns.2.1
  have ha' := Answer.eq_ok_of_toOption hruns.2.2.1
  have hb' := Answer.eq_ok_of_toOption hruns.2.2.2
  exact ⟨⟨hb, hb'⟩, passes_commute readsBack_stoppedClock reachable_strayedMemory (by decide)
    (calm_turns _) (calm_turns _) (calm_turns _) (calm_turns _) ⟨_, ha, .inl trivial⟩
    ⟨_, hb, .inl trivial⟩ ⟨_, ha', .inl trivial⟩ ⟨_, hb', .inl trivial⟩⟩

end Pass

end PlanSync
