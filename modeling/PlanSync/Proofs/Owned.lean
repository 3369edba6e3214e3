import PlanSync.Proofs.Derived
import PlanSync.Proofs.Store.Listing

/-!
# What a pass finds

A pass asks the store for the objects that bear the owner labels and sorts them
into pairs and strays. For a sound store the sorting is described by what the
store holds: the half of a pair is *the* object that is held, owned, and told to
be of the branch (`Pass.Found.half_iff`), and a stray is an object that is held
and owned and told to be of no branch (`Pass.Found.mem_strays_iff`). A pass has
also derived what should exist when it is done with this (`Pass.Surveyed`).

Sources and configurations are sorted in the same way, so the sorting is
described once, for a list of objects of either kind (`Pass.Input.sortIn`).
-/

namespace PlanSync

open OwnedObjects

/-- **What the owner labels select.** -/
theorem accepts_ownerSelector {template : String} {labels : Labels} :
    (ownerSelector template).accepts labels = true
      ↔ labels.get? ownerLabel = some "true" ∧ labels.get? templateLabel = some template := by
  -- a selector asks for exactly the pairs it was made of
  have hrequired : ∀ key, (ownerSelector template).required.get? key
      = if key = templateLabel then some template
        else if key = ownerLabel then some "true" else none := by
    intro key
    rw [ownerSelector, Selector.requiring, Selector.requiring, SortedMap.get?_insert,
      SortedMap.get?_insert]
    rfl
  rw [Selector.accepts, List.all_eq_true]
  constructor
  · intro h
    have hlabel : ∀ key value, (ownerSelector template).required.get? key = some value →
        labels.get? key = some value := fun key value hv =>
      of_decide_eq_true (h (key, value) (SortedMap.mem_entries_iff.mpr hv))
    exact ⟨hlabel _ _ (by rw [hrequired, if_neg (by decide), if_pos rfl]),
      hlabel _ _ (by rw [hrequired, if_pos rfl])⟩
  · rintro ⟨hmarker, htemplate⟩ ⟨key, value⟩ he
    have hv := (hrequired key).symm.trans (SortedMap.mem_entries_iff.mp he)
    refine decide_eq_true ?_
    by_cases ht : key = templateLabel
    · rw [if_pos ht] at hv
      exact ht ▸ htemplate.trans hv
    · rw [if_neg ht] at hv
      by_cases ho : key = ownerLabel
      · rw [if_pos ho] at hv
        exact ho ▸ hmarker.trans hv
      · rw [if_neg ho] at hv
        cases hv

/-! ## Halves -/

namespace OwnedPair

/-- The half of a pair that is of a kind, if there is one. -/
def half (p : OwnedPair) : (k : Kind) → Option (Object k)
  | .terraform => p.terraform
  | .gitRepository => p.source

/-- The pair with an object as its half. -/
def put (p : OwnedPair) : {k : Kind} → Object k → OwnedPair
  | .terraform, o => { p with terraform := some o }
  | .gitRepository, o => { p with source := some o }

theorem half_put_self (p : OwnedPair) : ∀ {k : Kind} (o : Object k), (p.put o).half k = some o
  | .terraform, _ => rfl
  | .gitRepository, _ => rfl

theorem half_put_of_ne (p : OwnedPair) : ∀ {k l : Kind} (o : Object k), l ≠ k →
    (p.put o).half l = p.half l
  | .terraform, .gitRepository, _, _ => rfl
  | .gitRepository, .terraform, _, _ => rfl
  | .terraform, .terraform, _, h => absurd rfl h
  | .gitRepository, .gitRepository, _, h => absurd rfl h

end OwnedPair

/-- A branch with a half has a pair. -/
theorem OwnedObjects.get?_pairs_of_half {owned : OwnedObjects} {k : Kind} {id : BranchId}
    {o : Object k} (ho : (owned.pairOf id).half k = some o) :
    owned.pairs.get? id = some (owned.pairOf id) := by
  unfold OwnedObjects.pairOf at ho ⊢
  cases hp : owned.pairs.get? id with
  | none =>
    rw [hp] at ho
    cases k <;> cases ho
  | some p => rfl

namespace Pass.Input

variable {i : Input} {k : Kind} {id : BranchId}

/-- **An object is owned**: it lives in the namespace of the template and bears
the owner labels, and is not the template or the source itself. -/
structure Owns (i : Input) {k : Kind} (o : Object k) : Prop where
  here : o.namespaceName = i.template.namespaceName
  bears : i.Bears o
  other : ¬ (o.namespaceName = (i.origin k).namespaceName ∧ o.name = (i.origin k).name)

/-! ## Standing -/

theorem standing_eq_itself_iff {o : Object k} :
    standing (i.origin k) o = .itself
      ↔ o.namespaceName = (i.origin k).namespaceName ∧ o.name = (i.origin k).name := by
  unfold standing
  split
  · next h => exact ⟨fun _ => h, fun _ => rfl⟩
  · next h =>
    refine ⟨fun h' => ?_, fun h' => absurd h' h⟩
    split at h' <;> cases h'

theorem standing_eq_ofBranch_iff {o : Object k} :
    standing (i.origin k) o = .ofBranch id
      ↔ ¬ (o.namespaceName = (i.origin k).namespaceName ∧ o.name = (i.origin k).name)
        ∧ branchIdOf? o (i.origin k).name = some id := by
  unfold standing
  split
  · next h => exact ⟨fun h' => (by cases h'), fun h' => absurd h h'.1⟩
  · next h =>
    cases hid : branchIdOf? o (i.origin k).name with
    | none => exact ⟨fun h' => (by cases h'), fun h' => (by cases h'.2)⟩
    | some id' =>
      rw [Option.some.injEq]
      exact ⟨fun h' => ⟨h, by cases h'; rfl⟩, fun h' => congrArg Standing.ofBranch h'.2⟩

/-- **An object of a branch has the derived name.** -/
theorem key_of_standing {o : Object k} (hns : o.namespaceName = i.template.namespaceName)
    (h : standing (i.origin k) o = .ofBranch id) : o.key = i.derivedKey k id := by
  obtain ⟨-, hid⟩ := standing_eq_ofBranch_iff.mp h
  obtain ⟨number, -, hname⟩ := Option.bind_eq_some_iff.mp hid
  rw [Object.key, derivedKey, hns, BranchId.eq_nameFrom_of_ofName? hname]

/-- A derived name is never that of the template or the source. -/
theorem not_itself_of_key {o : Object k} (h : o.key = i.derivedKey k id) :
    ¬ (o.namespaceName = (i.origin k).namespaceName ∧ o.name = (i.origin k).name) := by
  have hname : o.name = id.nameFrom (i.origin k).name := congrArg ObjectKey.name h
  rintro ⟨-, hname'⟩
  exact BranchId.nameFrom_ne _ _ (hname.symm.trans hname')

/-- **An object with a derived name is of the branch**, if it names a pull
request with the id of the branch. -/
theorem standing_of_key {o : Object k} {pr : PullRequest} (h : o.key = i.derivedKey k pr.branchId)
    (hlabel : o.labels.get? pullRequestLabel = some (Text.decimal pr.number))
    (hhead : pr.headBranch ≠ "") (hnumber : pr.number < Text.wordBound) :
    standing (i.origin k) o = .ofBranch pr.branchId := by
  have hname : o.name = pr.branchId.nameFrom (i.origin k).name := congrArg ObjectKey.name h
  refine standing_eq_ofBranch_iff.mpr ⟨not_itself_of_key h, ?_⟩
  rw [branchIdOf?, hlabel, hname]
  exact BranchId.ofName?_nameFrom _ hhead hnumber

/-! ## Sorting -/

/-- Take an object of either kind into account. -/
def sortIn (i : Input) (owned : OwnedObjects) (o : Object k) : OwnedObjects :=
  match standing (i.origin k) o with
  | .itself => owned
  | .ofBranch id => { owned with pairs := owned.pairs.insert id ((owned.pairOf id).put o) }
  | .stray => { owned with strays := owned.strays ++ [o.key] }

theorem addTerraform_eq_sortIn (i : Input) : addTerraform i.template = i.sortIn := rfl

theorem addSource_eq_sortIn (i : Input) : addSource i.source = i.sortIn := rfl

theorem pairOf_sortIn (i : Input) (owned : OwnedObjects) (o : Object k) (id : BranchId) :
    (i.sortIn owned o).pairOf id
      = if standing (i.origin k) o = .ofBranch id then (owned.pairOf id).put o
        else owned.pairOf id := by
  unfold sortIn
  cases hs : standing (i.origin k) o with
  | itself => rfl
  | stray => rfl
  | ofBranch id' =>
    show ((owned.pairs.insert id' ((owned.pairOf id').put o)).get? id).getD {} = _
    rw [SortedMap.get?_insert]
    by_cases h : id = id'
    · subst h
      rw [if_pos rfl, if_pos rfl]
      rfl
    -- another branch: its pair is what it was
    · rw [if_neg h, if_neg (fun h' => h (Standing.ofBranch.inj h').symm)]
      rfl

theorem half_sortIn (i : Input) (owned : OwnedObjects) (o : Object k) (id : BranchId) :
    ((i.sortIn owned o).pairOf id).half k
      = ([o].find? fun o => standing (i.origin k) o = .ofBranch id).or
          ((owned.pairOf id).half k) := by
  rw [pairOf_sortIn]
  by_cases h : standing (i.origin k) o = .ofBranch id
  · rw [if_pos h, OwnedPair.half_put_self, List.find?_singleton, if_pos (decide_eq_true h),
      Option.some_or]
  · rw [if_neg h, List.find?_singleton, if_neg (fun h' => h (of_decide_eq_true h')),
      Option.none_or]

/-- The last object of a branch becomes the half of its pair. -/
theorem half_foldl (i : Input) (os : List (Object k)) (owned : OwnedObjects) (id : BranchId) :
    ((os.foldl i.sortIn owned).pairOf id).half k
      = (os.reverse.find? fun o => standing (i.origin k) o = .ofBranch id).or
          ((owned.pairOf id).half k) := by
  induction os generalizing owned with
  | nil => rfl
  | cons o os ih =>
    rw [List.foldl_cons, ih, half_sortIn, List.reverse_cons, List.find?_append, Option.or_assoc]

/-- Sorting objects of one kind leaves the halves of the other alone. -/
theorem half_foldl_of_ne {l : Kind} (hl : l ≠ k) (os : List (Object k)) (owned : OwnedObjects)
    (id : BranchId) :
    ((os.foldl i.sortIn owned).pairOf id).half l = (owned.pairOf id).half l := by
  induction os generalizing owned with
  | nil => rfl
  | cons o os ih =>
    rw [List.foldl_cons, ih, pairOf_sortIn]
    split
    · exact OwnedPair.half_put_of_ne _ _ hl
    · rfl

theorem strays_foldl (i : Input) (os : List (Object k)) (owned : OwnedObjects) :
    (os.foldl i.sortIn owned).strays
      = owned.strays
        ++ (os.filter fun o => standing (i.origin k) o = .stray).map Object.key := by
  induction os generalizing owned with
  | nil => exact (List.append_nil _).symm
  | cons o os ih =>
    rw [List.foldl_cons, ih, sortIn]
    cases hs : standing (i.origin k) o with
    | itself => rw [List.filter_cons_of_neg (by simp [hs])]
    | ofBranch id => rw [List.filter_cons_of_neg (by simp [hs])]
    | stray =>
      rw [List.filter_cons_of_pos (by simp [hs]), List.map_cons, List.append_assoc,
        List.singleton_append]

/-- No pair is without both halves. -/
def NoHollowPair (owned : OwnedObjects) : Prop :=
  ∀ id p, owned.pairs.get? id = some p → ∃ k o, p.half k = some o

theorem noHollowPair_sortIn {owned : OwnedObjects} (h : NoHollowPair owned) (o : Object k) :
    NoHollowPair (i.sortIn owned o) := by
  unfold sortIn
  split
  · exact h
  · intro id p hp
    rw [SortedMap.get?_insert] at hp
    split at hp
    · cases hp
      exact ⟨k, o, OwnedPair.half_put_self _ o⟩
    · exact h id p hp
  · exact h

theorem noHollowPair_foldl {owned : OwnedObjects} (h : NoHollowPair owned)
    (os : List (Object k)) : NoHollowPair (os.foldl i.sortIn owned) := by
  induction os generalizing owned with
  | nil => exact h
  | cons o os ih => exact ih (noHollowPair_sortIn h o)

/-- The objects of a kind that a listing gives. -/
def listed (ts : List Terraform) (ss : List GitRepository) : (k : Kind) → List (Object k)
  | .terraform => ts
  | .gitRepository => ss

section Listed

variable (i : Input) (ts : List Terraform) (ss : List GitRepository)

theorem ofListed_eq : ofListed i.template i.source ts ss
    = { (ss.foldl i.sortIn (ts.foldl i.sortIn {})) with
        strays := (ss.foldl i.sortIn (ts.foldl i.sortIn {})).strays.mergeSort
          fun a b => a ≤ b } := by
  rw [ofListed, addTerraform_eq_sortIn, addSource_eq_sortIn]

/-- **The half of a pair is the last object listed of its branch.** -/
theorem half_ofListed (id : BranchId) (k : Kind) :
    ((ofListed i.template i.source ts ss).pairOf id).half k
      = (listed ts ss k).reverse.find? fun o => standing (i.origin k) o = .ofBranch id := by
  rw [ofListed_eq]
  show ((ss.foldl i.sortIn (ts.foldl i.sortIn {})).pairOf id).half k = _
  cases k with
  | terraform =>
    rw [half_foldl_of_ne (by decide), half_foldl]
    exact Option.or_none
  | gitRepository =>
    rw [half_foldl, half_foldl_of_ne (by decide)]
    exact Option.or_none

/-- **The strays are the objects listed that belong to no branch.** -/
theorem strays_ofListed :
    (ofListed i.template i.source ts ss).strays.Perm
      ((ts.filter fun o => standing (i.origin .terraform) o = .stray).map Object.key
        ++ (ss.filter fun o => standing (i.origin .gitRepository) o = .stray).map
            Object.key) := by
  rw [ofListed_eq]
  refine (List.mergeSort_perm _ _).trans (List.Perm.of_eq ?_)
  rw [strays_foldl, strays_foldl]
  rfl

theorem noHollowPair_ofListed : NoHollowPair (ofListed i.template i.source ts ss) :=
  noHollowPair_foldl (noHollowPair_foldl (fun _ _ hp => by cases hp) ts) ss

end Listed

end Pass.Input

/-- **What is reported** of what a template owns: a half of a pair, or a stray. -/
def OwnedObjects.Reports (owned : OwnedObjects) (key : ObjectKey) : Prop :=
  key ∈ owned.strays ∨ ∃ id k, ∃ o : Object k, (owned.pairOf id).half k = some o ∧ o.key = key

/-! ## What is found -/

namespace Pass

/-- The objects of a kind that bear the owner labels, as a store lists them. -/
def Input.listing (i : Input) (m : Memory) (k : Kind) : Except StoreError (List (Object k)) :=
  m.list k i.template.namespaceName (ownerSelector i.template.name)

/-- **What is found** of what a template owns: the listings of both kinds, sorted. -/
structure Found (i : Input) (m : Memory) (owned : OwnedObjects) : Prop where
  listed : ∃ ts ss, i.listing m .terraform = .ok ts ∧ i.listing m .gitRepository = .ok ss
    ∧ owned = ofListed i.template i.source ts ss

variable {i : Input} {m : Memory} {k : Kind} {id : BranchId}

theorem Input.mem_listing (hm : m.Sound) {os : List (Object k)} (h : i.listing m k = .ok os)
    (o : Object k) :
    o ∈ os ↔ m.Holds o ∧ o.namespaceName = i.template.namespaceName ∧ i.Bears o := by
  rw [Memory.mem_list hm h, accepts_ownerSelector]
  exact and_congr_right' (and_congr_right' ⟨fun h => ⟨h.1, h.2⟩, fun h => ⟨h.1, h.2⟩⟩)

theorem Input.mem_strays_ofListed {ts : List Terraform} {ss : List GitRepository}
    {key : ObjectKey} : key ∈ (ofListed i.template i.source ts ss).strays
      ↔ ∃ o ∈ Input.listed ts ss key.kind,
          standing (i.origin key.kind) o = .stray ∧ o.key = key := by
  rw [(Input.strays_ofListed i ts ss).mem_iff, List.mem_append, List.mem_map, List.mem_map]
  simp only [List.mem_filter, decide_eq_true_eq]
  constructor
  · rintro (⟨o, ⟨ho, hs⟩, rfl⟩ | ⟨o, ⟨ho, hs⟩, rfl⟩)
    · exact ⟨o, ho, hs, rfl⟩
    · exact ⟨o, ho, hs, rfl⟩
  · rcases key with ⟨_ | _, ns, name⟩
    · rintro ⟨o, ho, hs, hkey⟩
      exact .inl ⟨o, ⟨ho, hs⟩, hkey⟩
    · rintro ⟨o, ho, hs, hkey⟩
      exact .inr ⟨o, ⟨ho, hs⟩, hkey⟩

namespace Found

variable {owned : OwnedObjects}

/-- One listing for each kind. -/
theorem exists_listed (h : Found i m owned) : ∃ ts ss,
    (∀ k, i.listing m k = .ok (Input.listed ts ss k))
      ∧ owned = ofListed i.template i.source ts ss := by
  obtain ⟨ts, ss, hts, hss, rfl⟩ := h.listed
  refine ⟨ts, ss, fun k => ?_, rfl⟩
  cases k with
  | terraform => exact hts
  | gitRepository => exact hss

/-- **The half of a pair** is the object that is held, owned, and of the branch. -/
theorem half_iff (hm : m.Sound) (h : Found i m owned) {o : Object k} :
    (owned.pairOf id).half k = some o
      ↔ m.Holds o ∧ i.Owns o ∧ standing (i.origin k) o = .ofBranch id := by
  obtain ⟨ts, ss, hlisting, rfl⟩ := h.exists_listed
  have hmem := Input.mem_listing hm (hlisting k)
  rw [Input.half_ofListed]
  constructor
  · intro ho
    have hstanding : standing (i.origin k) o = .ofBranch id := by
      simpa using List.find?_some ho
    obtain ⟨hholds, hns, hbears⟩ := (hmem o).mp (List.mem_reverse.mp (List.mem_of_find?_eq_some ho))
    exact ⟨hholds, ⟨hns, hbears, (Input.standing_eq_ofBranch_iff.mp hstanding).1⟩, hstanding⟩
  · rintro ⟨hholds, howns, hstanding⟩
    have ho : o ∈ (Input.listed ts ss k).reverse :=
      List.mem_reverse.mpr ((hmem o).mpr ⟨hholds, howns.here, howns.bears⟩)
    -- of two objects of one branch the names are equal, and so are the objects
    cases hfind : (Input.listed ts ss k).reverse.find?
        fun o => standing (i.origin k) o = .ofBranch id with
    | none => exact absurd (decide_eq_true hstanding) (List.find?_eq_none.mp hfind o ho)
    | some o' =>
      have hstanding' : standing (i.origin k) o' = .ofBranch id := by
        simpa using List.find?_some hfind
      obtain ⟨hholds', hns', -⟩ :=
        (hmem o').mp (List.mem_reverse.mp (List.mem_of_find?_eq_some hfind))
      refine congrArg some (hholds'.unique hholds ?_)
      rw [Input.key_of_standing hns' hstanding', Input.key_of_standing howns.here hstanding]

/-- **The half of a pair has the derived key.** -/
theorem key_half (hm : m.Sound) (h : Found i m owned) {o : Object k}
    (ho : (owned.pairOf id).half k = some o) : o.key = i.derivedKey k id := by
  obtain ⟨-, howns, hstanding⟩ := (h.half_iff hm).mp ho
  exact Input.key_of_standing howns.here hstanding

/-- A pair that is kept has a half. -/
theorem exists_half (h : Found i m owned) {p : OwnedPair}
    (hp : owned.pairs.get? id = some p) : ∃ k o, (owned.pairOf id).half k = some o := by
  obtain ⟨ts, ss, -, rfl⟩ := h.exists_listed
  have hpair : (ofListed i.template i.source ts ss).pairOf id = p := by
    rw [OwnedObjects.pairOf, hp, Option.getD_some]
  rw [hpair]
  exact Input.noHollowPair_ofListed i ts ss id p hp

/-- **The strays** are the objects that are held and owned and of no branch. -/
theorem mem_strays_iff (hm : m.Sound) (h : Found i m owned) {key : ObjectKey} :
    key ∈ owned.strays ↔ ∃ o : Object key.kind, m.Holds o ∧ i.Owns o
      ∧ standing (i.origin key.kind) o = .stray ∧ o.key = key := by
  obtain ⟨ts, ss, hlisting, rfl⟩ := h.exists_listed
  have hmem := Input.mem_listing hm (hlisting key.kind)
  rw [Input.mem_strays_ofListed]
  constructor
  · rintro ⟨o, ho, hs, hkey⟩
    obtain ⟨hholds, hns, hbears⟩ := (hmem o).mp ho
    refine ⟨o, hholds, ⟨hns, hbears, fun hself => ?_⟩, hs, hkey⟩
    cases hs.symm.trans (Input.standing_eq_itself_iff.mpr hself)
  · rintro ⟨o, hholds, howns, hs, hkey⟩
    exact ⟨o, (hmem o).mpr ⟨hholds, howns.here, howns.bears⟩, hs, hkey⟩

/-- **Every stray is found once.** -/
theorem nodup_strays (hm : m.Sound) (h : Found i m owned) : owned.strays.Nodup := by
  obtain ⟨ts, ss, hlisting, rfl⟩ := h.exists_listed
  have hkeys : ∀ k, (((Input.listed ts ss k).filter fun o =>
      standing (i.origin k) o = .stray).map Object.key).Nodup := fun k =>
    (List.filter_sublist.map Object.key).nodup (Memory.nodup_list hm (hlisting k))
  rw [(Input.strays_ofListed i ts ss).nodup_iff, List.nodup_append]
  refine ⟨hkeys .terraform, hkeys .gitRepository, fun key hkey key' hkey' heq => ?_⟩
  obtain ⟨o, -, rfl⟩ := List.mem_map.mp hkey
  obtain ⟨o', -, rfl⟩ := List.mem_map.mp hkey'
  -- a stray configuration and a stray source differ in kind
  cases congrArg ObjectKey.kind heq

/-- **What is reported is what is owned.** -/
theorem reports_iff (hm : m.Sound) (h : Found i m owned) {key : ObjectKey} :
    owned.Reports key ↔ ∃ o : Object key.kind, m.Holds o ∧ i.Owns o ∧ o.key = key := by
  constructor
  · rintro (hstray | ⟨id, k, o, ho, rfl⟩)
    · obtain ⟨o, hholds, howns, -, hkey⟩ := (h.mem_strays_iff hm).mp hstray
      exact ⟨o, hholds, howns, hkey⟩
    · obtain ⟨hholds, howns, -⟩ := (h.half_iff hm).mp ho
      exact ⟨o, hholds, howns, rfl⟩
  · rintro ⟨o, hholds, howns, hkey⟩
    cases hstanding : OwnedObjects.standing (i.origin key.kind) o with
    | itself => exact absurd (Input.standing_eq_itself_iff.mp hstanding) howns.other
    | ofBranch id => exact .inr ⟨id, _, o, (h.half_iff hm).mpr ⟨hholds, howns, hstanding⟩, hkey⟩
    | stray => exact .inl ((h.mem_strays_iff hm).mpr ⟨o, hholds, howns, hstanding, hkey⟩)

end Found

/-! ## Surveys -/

/-- **What a pass finds** before it changes anything: what should exist, and
what its template owns. -/
structure Surveyed (i : Input) (m : Memory) (wanted : DesiredState) (owned : OwnedObjects) :
    Prop where
  derived : i.derive? = some wanted
  listed : ∃ ts ss, i.listing m .terraform = .ok ts ∧ i.listing m .gitRepository = .ok ss
    ∧ owned = ofListed i.template i.source ts ss

namespace Surveyed

variable {wanted : DesiredState} {owned : OwnedObjects}

theorem found (h : Surveyed i m wanted owned) : Found i m owned := ⟨h.listed⟩

theorem exists_listed (h : Surveyed i m wanted owned) : ∃ ts ss,
    (∀ k, i.listing m k = .ok (Input.listed ts ss k))
      ∧ owned = ofListed i.template i.source ts ss := h.found.exists_listed

theorem half_iff (hm : m.Sound) (h : Surveyed i m wanted owned) {o : Object k} :
    (owned.pairOf id).half k = some o
      ↔ m.Holds o ∧ i.Owns o ∧ standing (i.origin k) o = .ofBranch id := h.found.half_iff hm

theorem key_half (hm : m.Sound) (h : Surveyed i m wanted owned) {o : Object k}
    (ho : (owned.pairOf id).half k = some o) : o.key = i.derivedKey k id := h.found.key_half hm ho

theorem exists_half (h : Surveyed i m wanted owned) {p : OwnedPair}
    (hp : owned.pairs.get? id = some p) : ∃ k o, (owned.pairOf id).half k = some o :=
  h.found.exists_half hp

theorem mem_strays_iff (hm : m.Sound) (h : Surveyed i m wanted owned) {key : ObjectKey} :
    key ∈ owned.strays ↔ ∃ o : Object key.kind, m.Holds o ∧ i.Owns o
      ∧ standing (i.origin key.kind) o = .stray ∧ o.key = key := h.found.mem_strays_iff hm

theorem nodup_strays (hm : m.Sound) (h : Surveyed i m wanted owned) : owned.strays.Nodup :=
  h.found.nodup_strays hm

theorem reports_iff (hm : m.Sound) (h : Surveyed i m wanted owned) {key : ObjectKey} :
    owned.Reports key ↔ ∃ o : Object key.kind, m.Holds o ∧ i.Owns o ∧ o.key = key :=
  h.found.reports_iff hm

end Surveyed

end Pass

end PlanSync
