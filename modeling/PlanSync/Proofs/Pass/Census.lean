import Mathlib.Data.List.Nodup
import PlanSync.Proofs.Action
import PlanSync.Proofs.Store.History
import PlanSync.Proofs.Pass.Course

/-!
# A census of what is owned

What a template owns is listed kind by kind and sorted into a map from branches to
pairs. The map would lose an object if two of one kind came to one branch: the later
one would take the place of the earlier. That this never happens rests on names: an
object of a branch bears the name derived for it (`Pass.Input.Names`), and a store
holds one object of a kind under a name.

So the listing is a census (`Pass.Census`): every object that is held and owned is
found once, with its branch or among the strays, nothing else is found, and the number
that is reported is the number of these objects. In every store that calls can reach,
listing gives a census, or an error if an object of the namespace cannot be read
(`Pass.listing_is_census`). Stores to which only objects were written that reading can
give can always be read (`Memory.readableIn_of_edits`).
-/

namespace PlanSync

open OwnedObjects

/-! ## Stores that can be read -/

namespace Memory

variable {clock : Nat → Timestamp} {m : Memory} {k : Kind} {namespaceName : String}

theorem readableIn_drop (h : m.ReadableIn k namespaceName) (key : ObjectKey) :
    (m.drop key).ReadableIn k namespaceName := by
  intro name j hj
  rw [cell_drop] at hj
  split at hj
  · cases hj
  · exact h name j hj

theorem readableIn_write (h : m.ReadableIn k namespaceName) {l : Kind} {o : Object l}
    (ho : o.Tidy) {created : Option Timestamp} (hc : ∀ t, created = some t → t.ReadsBack) :
    (m.write o created).2.ReadableIn k namespaceName := by
  intro name j hj
  rw [cell_write] at hj
  split at hj
  · next hkey =>
    obtain rfl : k = l := congrArg ObjectKey.kind hkey
    cases hj
    exact ⟨_, decode_eq_ok.mpr (Object.decoder_stored ho.stamped hc)⟩
  · exact h name j hj

theorem exists_json_of_decodeAll {selector : Selector} {js : List Json} {e : StoreError}
    (h : decodeAll k selector js = .error e) : ∃ cause, e = .json cause := by
  induction js with
  | nil => cases h
  | cons j js ih =>
    rw [decodeAll, Answer.bind_eq_error] at h
    rcases h with hj | ⟨o, -, h⟩
    · obtain ⟨cause, -, rfl⟩ := Answer.mapError_eq_error.mp hj
      exact ⟨cause, rfl⟩
    · rcases Answer.bind_eq_error.mp h with hjs | ⟨os, -, h⟩
      · exact ih hjs
      · cases h

/-- **A store can be read** if every object that was written to it is one that reading
can give. -/
theorem readableIn_of_edits (hclock : ∀ n, (clock n).ReadsBack) (edits : List Edit)
    (hm : Reachable clock m) (h : m.ReadableIn k namespaceName)
    (hedits : ∀ e ∈ edits, ∀ o, e.object? = some o → o.2.Tidy) :
    (edits.foldl (Edit.apply clock) m).ReadableIn k namespaceName := by
  induction edits generalizing m with
  | nil => exact h
  | cons e edits ih =>
    rw [List.forall_mem_cons] at hedits
    refine ih (hm.edit e) ?_ hedits.2
    rcases e.apply_cases hclock (hm.sound hclock) with hsame | ⟨key, hdrop⟩
      | ⟨l, o, created, ho, hc, hwrite⟩
    · rw [hsame]
      exact h
    · rw [hdrop]
      exact readableIn_drop h key
    · rw [hwrite]
      exact readableIn_write h (hedits.1 _ ho) hc

end Memory

/-! ## Counting what is found -/

/-- The keys of the objects of a pair. -/
def OwnedPair.keys (p : OwnedPair) : List ObjectKey :=
  p.terraform.toList.map Object.key ++ p.source.toList.map Object.key

theorem OwnedPair.length_keys (p : OwnedPair) : p.keys.length = p.size := by
  simp only [keys, size, List.length_append, List.length_map]

theorem OwnedPair.mem_keys_iff {p : OwnedPair} {key : ObjectKey} :
    key ∈ p.keys ↔ ∃ k, ∃ o : Object k, p.half k = some o ∧ o.key = key := by
  simp only [keys, List.mem_append, List.mem_map, Option.mem_toList]
  constructor
  · rintro (⟨o, ho, hkey⟩ | ⟨o, ho, hkey⟩)
    · exact ⟨.terraform, o, ho, hkey⟩
    · exact ⟨.gitRepository, o, ho, hkey⟩
  · rintro ⟨k, o, ho, hkey⟩
    cases k with
    | terraform => exact .inl ⟨o, ho, hkey⟩
    | gitRepository => exact .inr ⟨o, ho, hkey⟩

/-- The halves of a pair differ in kind. -/
theorem OwnedPair.nodup_keys (p : OwnedPair) : p.keys.Nodup := by
  obtain ⟨terraform, source⟩ := p
  cases terraform <;> cases source <;> simp [keys, Object.key]

namespace OwnedObjects

variable {owned : OwnedObjects}

/-- The keys of all objects that are found, pair by pair. -/
def keys (owned : OwnedObjects) : List ObjectKey :=
  owned.pairs.values.flatMap OwnedPair.keys ++ owned.strays

/-- **The number that is reported** is the number of keys. -/
theorem length_keys (owned : OwnedObjects) : owned.keys.length = owned.size := by
  unfold keys size
  induction owned.pairs.values with
  | nil => rfl
  | cons p ps ih =>
    rw [List.flatMap_cons, List.append_assoc, List.length_append, ih, OwnedPair.length_keys,
      List.foldr_cons]

theorem pairOf_of_get?_pairs {id : BranchId} {p : OwnedPair} (hp : owned.pairs.get? id = some p) :
    owned.pairOf id = p := by
  rw [pairOf, hp, Option.getD_some]

theorem mem_keys_iff {key : ObjectKey} : key ∈ owned.keys ↔ owned.Reports key := by
  unfold keys Reports
  rw [List.mem_append, or_comm, List.mem_flatMap]
  refine or_congr_right ⟨?_, ?_⟩
  · rintro ⟨p, hp, hkey⟩
    obtain ⟨⟨id, p⟩, he, rfl⟩ := List.mem_map.mp hp
    obtain ⟨k, o, ho, hkey⟩ := OwnedPair.mem_keys_iff.mp hkey
    exact ⟨id, k, o, by rwa [pairOf_of_get?_pairs (SortedMap.mem_entries_iff.mp he)], hkey⟩
  · rintro ⟨id, k, o, ho, hkey⟩
    exact ⟨_, List.mem_map.mpr
        ⟨(id, _), SortedMap.mem_entries_iff.mpr (get?_pairs_of_half ho), rfl⟩,
      OwnedPair.mem_keys_iff.mpr ⟨k, o, ho, hkey⟩⟩

end OwnedObjects

namespace Pass

variable {clock : Nat → Timestamp} {i : Input} {m : Memory} {owned : OwnedObjects} {k : Kind}
  {id id' : BranchId}

/-- **No object is found twice.** -/
theorem Found.nodup_keys (hm : m.Sound) (h : Found i m owned) : owned.keys.Nodup := by
  have hderived : ∀ e ∈ owned.pairs.entries, ∀ key ∈ e.2.keys, ∃ k,
      key = i.derivedKey k e.1 ∧ key ∉ owned.strays := fun e he key hkey => by
    obtain ⟨k, o, ho, rfl⟩ := OwnedPair.mem_keys_iff.mp hkey
    rw [← pairOf_of_get?_pairs (SortedMap.mem_entries_iff.mp he)] at ho
    refine ⟨k, h.key_half hm ho, fun hstray => ?_⟩
    obtain ⟨hholds, -, hbranch⟩ := (h.half_iff hm).mp ho
    obtain ⟨o', hholds', -, hstray, hsame⟩ := (h.mem_strays_iff hm).mp hstray
    rw [hholds'.unique hholds hsame] at hstray
    cases hbranch.symm.trans hstray
  rw [OwnedObjects.keys, SortedMap.values, List.flatMap_map, List.nodup_append,
    List.nodup_flatMap]
  refine ⟨⟨fun e _ => e.2.nodup_keys, ?_⟩, h.nodup_strays hm, fun key hkey key' hstray heq => ?_⟩
  · refine owned.pairs.sorted.imp_of_mem fun {a b} ha hb hlt key hkey hkey' => ?_
    obtain ⟨k, hk, -⟩ := hderived a ha key hkey
    obtain ⟨k', hk', -⟩ := hderived b hb key hkey'
    have hid := (Input.derivedKey_injective (hk.symm.trans hk')).2
    exact Std.lt_irrefl (hid ▸ hlt)
  · obtain ⟨e, he, hkey⟩ := List.mem_flatMap.mp hkey
    obtain ⟨-, -, hnot⟩ := hderived e he key hkey
    exact hnot (heq ▸ hstray)

/-- **Strays come in order** of kind, namespace and name. -/
theorem Found.sorted_strays (hm : m.Sound) (h : Found i m owned) :
    owned.strays.Pairwise (· < ·) := by
  have hle : owned.strays.Pairwise (· ≤ ·) := by
    obtain ⟨ts, ss, -, rfl⟩ := h.exists_listed
    rw [Input.ofListed_eq]
    exact pairwise_mergeSort_by id _
  exact hle.imp₂ (fun _ _ hle hne => Std.lt_of_le_of_ne hle hne) (h.nodup_strays hm)

/-! ## Branches by name -/

/-- **An object names a branch**: its name is that of what it was derived from, a dash
and the id; and the id ends in a dash and the label with the number of its pull
request, with something before them. -/
structure Input.Names (i : Input) (o : Object k) (id : BranchId) : Prop where
  name : o.name = (i.origin k).name ++ "-" ++ id.text
  number : ∃ number head n, o.labels.get? pullRequestLabel = some number
    ∧ id.text = head ++ "-" ++ number ∧ head ≠ "" ∧ Text.readWord? number = some n

theorem Input.Names.unique {o : Object k} (h : i.Names o id) (h' : i.Names o id') : id = id' :=
  BranchId.nameFrom_injective (h.name.symm.trans h'.name)

theorem branchIdOf?_eq_some_iff {o : Object k} :
    branchIdOf? o (i.origin k).name = some id ↔ i.Names o id := by
  unfold branchIdOf?
  simp only [bind, Option.bind_eq_some_iff, BranchId.ofName?_eq_some_iff]
  constructor
  · rintro ⟨number, hlabel, hname, ⟨head, hhead, htext⟩, n, hn⟩
    exact ⟨hname, number, head, n, hlabel, htext, hhead, hn⟩
  · rintro ⟨hname, number, head, n, hlabel, htext, hhead, hn⟩
    exact ⟨number, hlabel, hname, ⟨head, hhead, htext⟩, n, hn⟩

theorem standing_eq_ofBranch_iff_names {o : Object k} (ho : i.Owns o) :
    standing (i.origin k) o = .ofBranch id ↔ i.Names o id := by
  rw [Input.standing_eq_ofBranch_iff, branchIdOf?_eq_some_iff]
  exact and_iff_right ho.other

theorem standing_eq_stray_iff_names {o : Object k} (ho : i.Owns o) :
    standing (i.origin k) o = .stray ↔ ∀ id, ¬ i.Names o id := by
  have hnames : ∀ id, standing (i.origin k) o = .ofBranch id ↔ i.Names o id :=
    fun _ => standing_eq_ofBranch_iff_names ho
  cases hs : standing (i.origin k) o with
  | itself => exact absurd (Input.standing_eq_itself_iff.mp hs) ho.other
  | ofBranch id =>
    exact ⟨fun h => (by cases h), fun h => absurd ((hnames id).mp hs) (h id)⟩
  | stray => exact ⟨fun _ id hid => (by cases hs.symm.trans ((hnames id).mpr hid)), fun _ => rfl⟩

/-! ## The census -/

/-- **A census of what a template owns.** Whatever is held and owned is found once: as
the half of the pair of the branch that it names, or among the strays if it names none.
Nothing else is found, and the objects that are found are counted. -/
structure Census (i : Input) (m : Memory) (owned : OwnedObjects) : Prop where
  ofBranch : ∀ {k : Kind} (o : Object k), m.Holds o → i.Owns o → ∀ id, i.Names o id →
    (∀ id', (owned.pairOf id').half k = some o ↔ id' = id) ∧ o.key ∉ owned.strays
  ofNone : ∀ {k : Kind} (o : Object k), m.Holds o → i.Owns o → (∀ id, ¬ i.Names o id) →
    (∀ id, (owned.pairOf id).half k ≠ some o) ∧ o.key ∈ owned.strays
  halves : ∀ {k : Kind} (o : Object k) id, (owned.pairOf id).half k = some o →
    m.Holds o ∧ i.Owns o
  strays : ∀ key ∈ owned.strays, ∃ o : Object key.kind, o.key = key ∧ m.Holds o ∧ i.Owns o
  noHollowPair : Input.NoHollowPair owned
  sorted : owned.strays.Pairwise (· < ·)
  counted : ∃ keys : List ObjectKey, keys.Nodup ∧ owned.size = keys.length
    ∧ ∀ key, key ∈ keys ↔ ∃ o : Object key.kind, o.key = key ∧ m.Holds o ∧ i.Owns o

theorem Found.census (hm : m.Sound) (h : Found i m owned) : Census i m owned where
  ofBranch o hholds howns id hid := by
    have hbranch := (standing_eq_ofBranch_iff_names howns).mpr hid
    refine ⟨fun id' => ?_, fun hstray => ?_⟩
    · rw [h.half_iff hm, standing_eq_ofBranch_iff_names howns]
      exact ⟨fun hid' => hid'.2.2.unique hid, fun heq => ⟨hholds, howns, heq ▸ hid⟩⟩
    · obtain ⟨o', hholds', -, hstray, hsame⟩ := (h.mem_strays_iff hm).mp hstray
      rw [hholds'.unique hholds hsame] at hstray
      cases hbranch.symm.trans hstray
  ofNone o hholds howns hnone := by
    refine ⟨fun id hhalf => ?_, (h.mem_strays_iff hm).mpr
      ⟨o, hholds, howns, (standing_eq_stray_iff_names howns).mpr hnone, rfl⟩⟩
    exact hnone id ((standing_eq_ofBranch_iff_names howns).mp ((h.half_iff hm).mp hhalf).2.2)
  halves o id hhalf := by
    obtain ⟨hholds, howns, -⟩ := (h.half_iff hm).mp hhalf
    exact ⟨hholds, howns⟩
  strays key hstray := by
    obtain ⟨o, hholds, howns, -, hkey⟩ := (h.mem_strays_iff hm).mp hstray
    exact ⟨o, hkey, hholds, howns⟩
  noHollowPair := by
    obtain ⟨ts, ss, -, rfl⟩ := h.exists_listed
    exact Input.noHollowPair_ofListed i ts ss
  sorted := h.sorted_strays hm
  counted := by
    refine ⟨owned.keys, h.nodup_keys hm, owned.length_keys.symm, fun key => ?_⟩
    rw [OwnedObjects.mem_keys_iff, h.reports_iff hm]
    exact exists_congr fun o => ⟨fun ⟨hholds, howns, hkey⟩ => ⟨hkey, hholds, howns⟩,
      fun ⟨hkey, hholds, howns⟩ => ⟨hholds, howns, hkey⟩⟩

/-- **Listing gives a census** in every store that calls can reach, whatever objects,
names and labels are in it; or it fails, as an object of the namespace cannot be
read. -/
theorem listing_is_census (hclock : ∀ n, (clock n).ReadsBack) (hm : Memory.Reachable clock m)
    (i : Input) :
    (∃ owned, (listIn (Memory.store clock) i.template i.source).Leaves m (.ok owned) m
        ∧ Census i m owned)
      ∨ (∃ k, ¬ m.ReadableIn k i.template.namespaceName)
        ∧ ∃ cause, (listIn (Memory.store clock) i.template i.source).Leaves m
            (.error (.json cause)) m := by
  have hlist : ∀ k, ((Memory.store clock).list k i.template.namespaceName
      (ownerSelector i.template.name)).Leaves m (i.listing m k) m := fun _ => ⟨rfl, rfl⟩
  have hunreadable : ∀ {k e}, i.listing m k = .error e →
      ¬ m.ReadableIn k i.template.namespaceName := fun he hread => by
    obtain ⟨os, hos⟩ := Memory.list_eq_ok_iff.mpr hread
    cases he.symm.trans hos
  cases hts : i.listing m .terraform with
  | error e =>
    obtain ⟨cause, rfl⟩ := Memory.exists_json_of_decodeAll hts
    exact .inr ⟨⟨_, hunreadable hts⟩, cause, Action.Leaves.bind_error (hts ▸ hlist .terraform)⟩
  | ok ts =>
    have hterraforms := hts ▸ hlist .terraform
    cases hss : i.listing m .gitRepository with
    | error e =>
      obtain ⟨cause, rfl⟩ := Memory.exists_json_of_decodeAll hss
      exact .inr ⟨⟨_, hunreadable hss⟩, cause,
        hterraforms.bind (Action.Leaves.bind_error (hss ▸ hlist .gitRepository))⟩
    | ok ss =>
      refine .inl ⟨_, hterraforms.bind <| (hss ▸ hlist .gitRepository).bind <|
        (Action.leaves_report _ m).bind (Action.leaves_done _ m), ?_⟩
      exact Found.census (hm.sound hclock) ⟨ts, ss, hts, hss, rfl⟩

/-- The sample template with the labels of what is derived from it. -/
def markedTemplate : Terraform :=
  { sampleInput.template with
    metadata := { sampleInput.template.metadata with labels := ownerLabels "plan" 7 } }

/-- A configuration that is derived from it. -/
def ownedPlan : Terraform :=
  { sampleInput.template with
    metadata :=
      { name := "plan-topic-7", namespaceName := "team", labels := ownerLabels "plan" 7 } }

/-- Edits that write the two and a stray. -/
def censusEdits : List Memory.Edit :=
  [.create .terraform markedTemplate, .create .terraform ownedPlan,
    .create .gitRepository sampleStray]

/-- Of the marked template, the configuration and the stray, two are found. -/
theorem census_beside_marked_template :
    let m := censusEdits.foldl (Memory.Edit.apply stoppedClock) {}
    ∃ owned, (listIn (Memory.store stoppedClock) sampleInput.template sampleInput.source).Leaves
        m (.ok owned) m
      ∧ Census sampleInput m owned ∧ owned.size = 2
      ∧ owned.pairs.keys = [⟨"topic-7"⟩] ∧ owned.strays = [sampleStray.key] := by
  intro m
  have hreach : Memory.Reachable stoppedClock m := Memory.Reachable.empty.edits censusEdits
  have htidy : ∀ e ∈ censusEdits, ∀ o, e.object? = some o → o.2.Tidy := by
    have hplan := (Object.tidy_of_readable readable_sampleInput.template).spec
    intro e he o ho
    simp only [censusEdits, List.mem_cons, List.not_mem_nil, or_false] at he
    rcases he with rfl | rfl | rfl <;> cases ho
    · exact ⟨hplan, fun _ hj => by cases hj⟩
    · exact ⟨hplan, fun _ hj => by cases hj⟩
    · exact ⟨⟨fun _ _ hj => (by cases hj), fun _ hr => by cases hr⟩, fun _ hj => by cases hj⟩
  have hruns : (listIn (Memory.store stoppedClock) sampleInput.template sampleInput.source
      m).result.toOption.map (fun owned => (owned.size, owned.pairs.keys, owned.strays))
        = some (2, [⟨"topic-7"⟩], [sampleStray.key]) := by
    decide +kernel
  obtain ⟨owned, hleaves, hcensus⟩ | ⟨⟨k, hk⟩, -⟩ :=
    listing_is_census readsBack_stoppedClock hreach sampleInput
  · rw [hleaves.1] at hruns
    obtain ⟨hsize, hpairs⟩ := Prod.mk.inj (Option.some.inj hruns)
    obtain ⟨hpairs, hstrays⟩ := Prod.mk.inj hpairs
    exact ⟨owned, hleaves, hcensus, hsize, hpairs, hstrays⟩
  · refine absurd (Memory.readableIn_of_edits readsBack_stoppedClock censusEdits .empty ?_ htidy) hk
    exact fun _ _ hj => by cases hj

end Pass

end PlanSync
