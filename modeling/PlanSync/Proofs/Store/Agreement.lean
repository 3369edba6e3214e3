import PlanSync.Proofs.Store.Lockstep
import PlanSync.Proofs.Store.Staleness

/-!
# Stores that agree

A store in memory and a store in files keep different things and count versions differently.
And yet nobody can tell one from the other, as long as nobody looks at versions and times
(`answers_agree`).

Versions come in only where an update carries one. Then both stores have told it since the
object was created, and each of them takes it for the version that stands there exactly if
nobody has changed the object since (`Memory.version_eq_iff` and `FileStore.version_eq_iff`). As
the same requests have succeeded in both, they decide alike.
-/

namespace PlanSync

/-! ## Runs that agree -/

namespace Store

variable {σ σ' α : Type} {store : Store σ} {store' : Store σ'}

/-- **Where answers agree, the same requests succeed.** -/
theorem map_succeeded_eq (f : Request → α) {pairs : List (Request × Request)} {s : σ} {s' : σ'}
    (hf : ∀ p ∈ pairs, f p.1 = f p.2)
    (h : (store.answers s (pairs.map Prod.fst)).map Answer.bare
      = (store'.answers s' (pairs.map Prod.snd)).map Answer.bare) :
    (store.succeeded s (pairs.map Prod.fst)).map f
      = (store'.succeeded s' (pairs.map Prod.snd)).map f := by
  induction pairs generalizing s s' with
  | nil => rfl
  | cons p pairs ih =>
    rw [List.forall_mem_cons] at hf
    simp only [List.map_cons, answers, List.cons.injEq] at h
    have ih := ih hf.2 h.2
    simp only [List.map_cons, succeeded]
    -- both succeed, or both fail
    cases hresult : (p.1.issue store s).result with
    | ok copies =>
      cases hresult' : (p.2.issue store' s').result with
      | ok copies' => rw [List.map_cons, List.map_cons, hf.1, ih]
      | error e =>
        rw [hresult, hresult'] at h
        cases h.1
    | error e =>
      cases hresult' : (p.2.issue store' s').result with
      | ok copies' =>
        rw [hresult, hresult'] at h
        cases h.1
      | error e' => exact ih

/-- What agrees over a whole run agrees over the end of it. -/
theorem answers_since {before between : List (Request × Request)} {r r' : Request} {s : σ} {s' : σ'}
    (h : (store.answers s ((before ++ (r, r') :: between).map Prod.fst)).map Answer.bare
      = (store'.answers s' ((before ++ (r, r') :: between).map Prod.snd)).map Answer.bare) :
    (store.answers (store.after s (before.map Prod.fst ++ [r])) (between.map Prod.fst)).map
        Answer.bare
      = (store'.answers (store'.after s' (before.map Prod.snd ++ [r'])) (between.map Prod.snd)).map
        Answer.bare := by
  rw [← List.singleton_append, ← List.append_assoc] at h
  simp only [List.map_append, List.map_cons, List.map_nil, answers_append store s,
    answers_append store' s'] at h
  exact (List.append_inj h (by simp [length_answers])).2

/-- **The same has succeeded since** a pair of requests. -/
theorem forall_succeededSince_iff (f : Request → α) (P : α → Prop)
    {before between : List (Request × Request)} {r r' : Request} {s : σ} {s' : σ'}
    (hf : ∀ p ∈ between, f p.1 = f p.2)
    (h : (store.answers s ((before ++ (r, r') :: between).map Prod.fst)).map Answer.bare
      = (store'.answers s' ((before ++ (r, r') :: between).map Prod.snd)).map Answer.bare) :
    (∀ q ∈ store.succeededSince s (before.map Prod.fst) r (between.map Prod.fst), P (f q))
      ↔ ∀ q ∈ store'.succeededSince s' (before.map Prod.snd) r' (between.map Prod.snd),
        P (f q) := by
  have hsucceeded := map_succeeded_eq f hf (answers_since h)
  rw [succeededSince, succeededSince, ← List.forall_mem_map, hsucceeded, List.forall_mem_map]

end Store

/-! ## What has become of a copy -/

namespace Memory

variable {clock : Nat → Timestamp} {m m' : Memory} {k : Kind} {r : Request}
  {requests : List Request} {copies : List Copy} {key : ObjectKey}

/-- **A request changes the cell of its key only.** -/
theorem Issued.cell_of_ne {result : Except StoreError (List Copy)}
    (h : Issued clock m r result m') (hne : r.target? ≠ some key) : m'.cell key = m.cell key := by
  cases h with
  | refused | looked => rfl
  | created | updated => exact cell_write_of_ne fun heq => hne (congrArg some heq.symm)
  | deleted => exact (cell_drop ..).trans (if_neg fun heq => hne (congrArg some heq.symm))

/-- **A copy has the version that stands there.** -/
theorem Issued.version_of_holds (hclock : ∀ n, (clock n).ReadsBack) (hm : m.Sound)
    (h : Issued clock m r (.ok copies) m') {c : Copy} (hc : c ∈ copies) {o : Object k}
    (ho : m'.Holds o) (hkey : o.key = c.key) : o.metadata.resourceVersion = c.version := by
  cases h with
  | looked hlook hheld =>
    obtain ⟨k', o'⟩ := c
    obtain rfl : k = k' := congrArg ObjectKey.kind hkey
    rw [ho.unique (hheld _ hc) hkey]
    rfl
  | created =>
    obtain rfl := List.mem_singleton.mp hc
    rcases holds_write (clock_readsBack hclock _) ho with ⟨-, hversion⟩ | ⟨hne, -⟩
    · exact hversion
    · exact absurd hkey hne
  | updated hreplaces =>
    obtain rfl := List.mem_singleton.mp hc
    rcases holds_write (creation_readsBack hm hreplaces) ho with ⟨-, hversion⟩ | ⟨hne, -⟩
    · exact hversion
    · exact absurd hkey hne
  | deleted => cases hc

/-- What nobody changes stays as it is. -/
theorem cell_after (hclock : ∀ n, (clock n).ReadsBack) (hm : m.Sound)
    (h : ∀ s ∈ (store clock).succeeded m requests, s.target? ≠ some key) :
    ((store clock).after m requests).cell key = m.cell key := by
  induction requests generalizing m with
  | nil => rfl
  | cons r requests ih =>
    have hissued : Issued clock m r _ _ := issued hm r
    have hsound := hissued.sound hclock hm
    rw [Store.after_cons]
    rw [Store.succeeded] at h
    split at h
    · rw [List.forall_mem_cons] at h
      exact (ih hsound h.2).trans (hissued.cell_of_ne h.1)
    · next e herror =>
      rw [herror] at hissued
      exact (ih hsound h).trans (congrArg (cell · key) hissued.state_of_error)

/-- **A copy is of the version that stands there** exactly if nobody has changed its key since
it was given. -/
theorem version_eq_iff (hclock : ∀ n, (clock n).ReadsBack) {before between : List Request}
    (hgives : (store clock).Gives {} before r copies) {c : Copy} (hc : c ∈ copies)
    (hkey : c.key = key) {o : Object k}
    (ho : ((store clock).after {} (before ++ r :: between)).Holds o) (hokey : o.key = key) :
    o.metadata.resourceVersion = c.version
      ↔ ∀ s ∈ (store clock).succeededSince {} before r between, s.target? ≠ some key := by
  subst hkey
  have hissued := issued_of_gives hclock hgives
  have hsound := sound_after hclock sound_empty (before ++ [r])
  rw [Store.after_append_cons] at ho
  constructor
  · intro hversion s hs htarget
    obtain ⟨n, hn, hgiven⟩ := hissued.given (since_empty hclock before) hc
    obtain ⟨n', hn', hnewer⟩ := newer_after hclock hsound hs htarget ho hokey
    have := Text.decimal_injective
      (Option.some.inj ((hnewer.symm.trans hversion).trans hgiven))
    omega
  · intro h
    have hcell := cell_after hclock hsound h
    exact hissued.version_of_holds hclock (sound_after hclock sound_empty before) hc
      (ho.of_cell_eq (hokey ▸ hcell.symm)) hokey

end Memory

namespace FileStore

variable {root : String} {base : Location} {clock : FileTree → Timestamp} {t : FileTree}
  {r : Request} {copies : List Copy}

/-- **A copy is of the version that stands there** exactly if nobody has changed its key since
it was given, where the key has not been created again and the changes are fewer than the
words. -/
theorem version_eq_iff (hclock : ∀ t, (clock t).ReadsBack) (h : Layout root base t)
    {before between : List Request} (hbetween : between.length < Text.wordBound)
    (hgives : (store root clock).Gives t before r copies) {c : Copy} (hc : c ∈ copies)
    {key : ObjectKey} (hkey : c.key = key)
    (hnew : ∀ s ∈ (store root clock).succeededSince t before r between, s.creates? ≠ some key)
    {text : String} {o : Object key.kind}
    (htext : textAt base ((store root clock).after t (before ++ r :: between)) key = some text)
    (ho : decode key.kind text = .ok o) :
    o.metadata.resourceVersion = c.version
      ↔ ∀ s ∈ (store root clock).succeededSince t before r between, s.target? ≠ some key := by
  subst hkey
  obtain ⟨x, hbound, hx, hnumbered⟩ := numbered_of_gives hclock h hgives hc hnew
  have hversion := ((hnumbered text htext).of_decode ho).2.2.1
  have hcount (p : Request → Bool) := Nat.lt_of_le_of_lt
    (Nat.le_trans (List.countP_le_length (p := p)) ((store root clock).length_succeeded_le
      ((store root clock).after t (before ++ [r])) between)) hbetween
  rw [hversion, hx, Option.some_inj]
  constructor
  · intro heq
    have hzero := eq_zero_of_mod hbound (hcount _) (Text.decimal_injective heq)
    rw [List.countP_eq_zero] at hzero
    exact fun s hs htarget => hzero s hs (decide_eq_true htarget)
  · intro hnone
    rw [List.countP_eq_zero.mpr fun s hs => by simpa using hnone s hs, Nat.add_zero,
      Nat.mod_eq_of_lt hbound]

end FileStore

/-! ## Requests that correspond -/

section Runs

open FileStore

/-- **A store has told a version** of a key with the answer to a request. -/
def Store.Told {σ : Type} (store : Store σ) (s : σ) (before : List Request) (r : Request)
    (key : ObjectKey) (version : Option String) : Prop :=
  ∃ copies, store.Gives s before r copies ∧ ∃ c ∈ copies, c.key = key ∧ c.version = version

variable (root : String) (clock : Nat → Timestamp) (clock' : FileTree → Timestamp) (t : FileTree)

/-- **Versions that correspond** after pairs of requests: there is none in either request, or
each is what the store has told of the key with the answer to one pair, and the key has not
been created since. -/
inductive VersionsCorrespond (earlier : List (Request × Request)) (key : ObjectKey) :
    Option String → Option String → Prop
  | none : VersionsCorrespond earlier key none none
  | told (before between : List (Request × Request)) {r r' : Request}
      {version version' : Option String} (hplace : earlier = before ++ (r, r') :: between)
      (htold : (Memory.store clock).Told {} (before.map Prod.fst) r key version)
      (htold' : (store root clock').Told t (before.map Prod.snd) r' key version')
      (hnew : ∀ s ∈ (Memory.store clock).succeededSince {} (before.map Prod.fst) r
        (between.map Prod.fst), s.creates? ≠ some key) :
    VersionsCorrespond earlier key version version'

/-- **Requests that correspond** after pairs of requests: the same is asked of both stores, with
keys that are valid and that the tree can keep, with objects that can be read from their texts,
and with versions that correspond. -/
inductive Corresponds (earlier : List (Request × Request)) : Request → Request → Prop
  | get {key : ObjectKey} (hkey : Naming.checkKey key = .ok ()) (hkeepable : Keepable root key) :
    Corresponds earlier (.get key) (.get key)
  | list {k : Kind} {namespaceName : String} {selector : Selector}
      (hnamespace : Naming.isStorable namespaceName = true)
      (hpath : FileTree.checkPath (directory root k namespaceName) = .ok ())
      (hsize : namespaceName.utf8ByteSize ≤ FileTree.maxNameBytes) :
    Corresponds earlier (.list k namespaceName selector) (.list k namespaceName selector)
  | create {k : Kind} {o o' : Object k} (hkey : Naming.checkKey o.key = .ok ())
      (hkeepable : Keepable root o.key) (hbare : o.bare = o'.bare)
      (ho : decode k (FileStore.content o) = .ok o)
      (ho' : decode k (FileStore.content o') = .ok o') :
    Corresponds earlier (.create k o) (.create k o')
  | update {k : Kind} {o o' : Object k} (hkey : Naming.checkKey o.key = .ok ())
      (hkeepable : Keepable root o.key) (hbare : o.bare = o'.bare)
      (ho : decode k (FileStore.content o) = .ok o)
      (ho' : decode k (FileStore.content o') = .ok o')
      (hversions : VersionsCorrespond root clock clock' t earlier o.key
        o.metadata.resourceVersion o'.metadata.resourceVersion) :
    Corresponds earlier (.update k o) (.update k o')
  | delete {key : ObjectKey} (hkey : Naming.checkKey key = .ok ())
      (hkeepable : Keepable root key) : Corresponds earlier (.delete key) (.delete key)

/-- **Runs that correspond**, pair by pair. -/
inductive Corresponding : List (Request × Request) → Prop
  | nil : Corresponding []
  | append {earlier : List (Request × Request)} {r r' : Request} (h : Corresponding earlier)
      (hr : Corresponds root clock clock' t earlier r r') : Corresponding (earlier ++ [(r, r')])

variable {root clock clock' t}

theorem Corresponds.target_eq {earlier : List (Request × Request)} {r r' : Request}
    (h : Corresponds root clock clock' t earlier r r') :
    r.target? = r'.target? ∧ r.creates? = r'.creates? := by
  cases h with
  | get | list | delete => exact ⟨rfl, rfl⟩
  | create _ _ hbare =>
    exact ⟨congrArg some (Object.key_of_bare hbare), congrArg some (Object.key_of_bare hbare)⟩
  | update _ _ hbare => exact ⟨congrArg some (Object.key_of_bare hbare), rfl⟩

theorem Corresponding.target_eq {pairs : List (Request × Request)}
    (h : Corresponding root clock clock' t pairs) :
    ∀ p ∈ pairs, p.1.target? = p.2.target? ∧ p.1.creates? = p.2.creates? := by
  induction h with
  | nil => exact fun _ hp => by cases hp
  | append _ hr ih =>
    exact List.forall_mem_append.mpr ⟨ih, List.forall_mem_singleton.mpr hr.target_eq⟩

/-- **Both stores check a version alike.** -/
theorem checked_alike {base : Location} (hclock : ∀ n, (clock n).ReadsBack)
    (hclock' : ∀ t, (clock' t).ReadsBack) (h : Layout root base t)
    {earlier : List (Request × Request)} (hbound : earlier.length < Text.wordBound)
    (htargets : ∀ p ∈ earlier, p.1.target? = p.2.target? ∧ p.1.creates? = p.2.creates?)
    (hanswers : ((Memory.store clock).answers {} (earlier.map Prod.fst)).map Answer.bare
      = ((store root clock').answers t (earlier.map Prod.snd)).map Answer.bare)
    {k : Kind} {o o' stored stored' : Object k} {text : String}
    (hversions : VersionsCorrespond root clock clock' t earlier o.key
      o.metadata.resourceVersion o'.metadata.resourceVersion)
    (hholds : ((Memory.store clock).after {} (earlier.map Prod.fst)).Holds stored)
    (hkey : stored.key = o.key)
    (htext : textAt base ((store root clock').after t (earlier.map Prod.snd)) o.key = some text)
    (hdecode : decode k text = .ok stored') :
    Memory.checkVersion stored o = .ok () ↔ checkVersion stored' o' = .ok () := by
  rw [Memory.checkVersion_eq_ok_iff, checkVersion_eq_ok_iff]
  generalize o.metadata.resourceVersion = version at hversions ⊢
  generalize o'.metadata.resourceVersion = version' at hversions ⊢
  cases hversions with
  | none => simp
  | @told before between r r' version version' hplace htold htold' hnew =>
    subst hplace
    obtain ⟨copies, hgives, c, hc, hckey, rfl⟩ := htold
    obtain ⟨copies', hgives', c', hc', hckey', rfl⟩ := htold'
    rw [List.forall_mem_append, List.forall_mem_cons] at htargets
    rw [List.length_append, List.length_cons] at hbound
    -- the same requests have succeeded since the versions were told
    have hnew' := (Store.forall_succeededSince_iff Request.creates? (· ≠ some o.key)
      (fun p hp => (htargets.2.2 p hp).2) hanswers).mp hnew
    have huntouched := Store.forall_succeededSince_iff Request.target? (· ≠ some o.key)
      (fun p hp => (htargets.2.2 p hp).1) hanswers
    rw [List.map_append, List.map_cons] at hholds htext
    have hmemory := Memory.version_eq_iff hclock hgives hc hckey hholds hkey
    have hlength : (between.map Prod.snd).length < Text.wordBound := by
      rw [List.length_map]
      omega
    have hfiles := version_eq_iff hclock' h hlength hgives' hc' hckey' hnew' htext hdecode
    have hversion := hmemory.trans (huntouched.trans hfiles.symm)
    obtain ⟨n, -, hn⟩ := (Memory.issued_of_gives hclock hgives).given
      (Memory.since_empty hclock _) hc
    obtain ⟨x, -, hx, -⟩ := numbered_of_gives hclock' h hgives' hc' (hckey'.symm ▸ hnew')
    rw [hn, hx] at hversion ⊢
    simpa using hversion

/-- **Stores that are asked the same** give the same answers and agree in the end. -/
theorem Corresponding.agree {base : Location} (hclock : ∀ n, (clock n).ReadsBack)
    (hclock' : ∀ t, (clock' t).ReadsBack) (h : Layout root base t)
    (hempty : ∀ key, textAt base t key = none) {pairs : List (Request × Request)}
    (hcorresponding : Corresponding root clock clock' t pairs)
    (hbound : pairs.length < Text.wordBound) :
    ((Memory.store clock).answers {} (pairs.map Prod.fst)).map Answer.bare
        = ((store root clock').answers t (pairs.map Prod.snd)).map Answer.bare
      ∧ Agree base ((Memory.store clock).after {} (pairs.map Prod.fst))
        ((store root clock').after t (pairs.map Prod.snd)) := by
  induction hcorresponding with
  | nil => exact ⟨rfl, fun key => .nothing rfl (hempty key)⟩
  | @append earlier r r' hearlier hr ih =>
    rw [List.length_append, List.length_singleton] at hbound
    obtain ⟨hanswers, hagree⟩ := ih (by omega)
    have hsound := Memory.sound_after hclock Memory.sound_empty (earlier.map Prod.fst)
    have hlayout := layout_after hclock' h (earlier.map Prod.snd)
    have hstep : InStep base ((Memory.store clock).after {} (earlier.map Prod.fst))
        ((store root clock').after t (earlier.map Prod.snd)) (r.issue (Memory.store clock))
        (r'.issue (store root clock')) := by
      cases hr with
      | get hkey hkeepable => exact inStep_get hlayout hagree hkey hkeepable
      | list hnamespace hpath hsize =>
        exact inStep_list hsound hlayout hagree _ _ hnamespace hpath hsize
      | create hkey hkeepable hbare ho ho' =>
        exact inStep_create hlayout hclock hclock' hagree hkey hkeepable hbare
          ⟨_, (decode_eq_ok.mp ho).1⟩ ho'
      | update hkey hkeepable hbare ho ho' hversions =>
        refine inStep_update hsound hlayout hagree hkey hkeepable hbare
          ⟨_, (decode_eq_ok.mp ho).1⟩ ho' fun stored stored' text hholds hstored htext hdecode => ?_
        exact checked_alike hclock hclock' h (by omega) hearlier.target_eq hanswers hversions hholds
          hstored htext hdecode
      | delete hkey hkeepable => exact inStep_delete hlayout hagree hkey hkeepable
    simp only [List.map_append, List.map_cons, List.map_nil, Store.answers_append,
      Store.after_append_singleton, hanswers]
    refine ⟨congrArg _ ?_, hstep.2⟩
    exact congrArg (fun answer => [answer]) hstep.1

/-- **Nobody can tell a store in files from a store in memory**: if both are empty and are asked
the same, with versions that correspond and fewer times than there are words, every answer is
the same but for versions and times. -/
theorem answers_agree (hvacant : Vacant root t) (hclock : ∀ n, (clock n).ReadsBack)
    (hclock' : ∀ t, (clock' t).ReadsBack) {pairs : List (Request × Request)}
    (hcorresponding : Corresponding root clock clock' t pairs)
    (hbound : pairs.length < Text.wordBound) :
    ((Memory.store clock).answers {} (pairs.map Prod.fst)).map Answer.bare
      = ((store root clock').answers t (pairs.map Prod.snd)).map Answer.bare := by
  obtain ⟨base, hlayout, hempty⟩ := hvacant.exists_layout
  exact (hcorresponding.agree hclock hclock' hlayout hempty hbound).1

/-! ### A source that is created again, in both stores -/

/-- What an answer tells, read off the answer. -/
theorem Store.told_of_answer {σ : Type} {store : Store σ} {s : σ} {before : List Request}
    {r : Request} {key : ObjectKey} {version : Option String}
    (h : ((r.issue store (store.after s before)).result.toOption.map fun copies =>
      copies.map fun c => (c.key, c.version)) = some [(key, version)]) :
    store.Told s before r key version := by
  obtain ⟨copies, hgives, hcopies⟩ := Option.map_eq_some_iff.mp h
  have hmem : (key, version) ∈ copies.map fun c => (c.key, c.version) :=
    hcopies ▸ List.mem_singleton_self _
  obtain ⟨c, hc, heq⟩ := List.mem_map.mp hmem
  refine ⟨copies, ?_, c, hc, congrArg Prod.fst heq, congrArg Prod.snd heq⟩
  exact Option.some.inj (Answer.eq_ok_of_toOption (x := some _) hgives)

theorem decode_plainSource (version : Option String) :
    decode .gitRepository (FileStore.content (plainSource.stamped version none))
      = .ok (plainSource.stamped version none) := by
  have hexact : plainSource.toJson.Exact := by
    intro n hn
    rw [Object.numbers_toJson] at hn
    cases hn
  exact decode_content (Object.tidy_of_readable (readable_plainSource version))
    (fun _ ht => by cases ht) (Object.exact_stamped hexact) (Object.nesting_stamped_le (by decide))

/-- The requests: in the end comes an update with the version that the new source has. -/
def madeAgainInBoth : List (Request × Request) :=
  [(.create .gitRepository plainSource, .create .gitRepository plainSource),
    (.delete plainSource.key, .delete plainSource.key),
    (.create .gitRepository plainSource, .create .gitRepository plainSource),
    (.update .gitRepository (plainSource.stamped (some "2") none),
      .update .gitRepository (plainSource.stamped (some "1") none))]

theorem corresponding_madeAgainInBoth :
    Corresponding "/data" (fun _ => noon) (fun _ => noon) dataTree madeAgainInBoth := by
  have hkey : Naming.checkKey plainSource.key = .ok () := by decide
  have hcreate (earlier : List (Request × Request)) :
      Corresponds "/data" (fun _ => noon) (fun _ => noon) dataTree earlier
        (.create .gitRepository plainSource) (.create .gitRepository plainSource) :=
    .create hkey keepable_plainSource rfl (decode_plainSource none) (decode_plainSource none)
  refine .append (.append (.append (.append .nil (hcreate _)) (.delete hkey keepable_plainSource))
    (hcreate _)) ?_
  refine .update hkey keepable_plainSource rfl (decode_plainSource _) (decode_plainSource _) ?_
  refine .told _ [] rfl (Store.told_of_answer ?_) (Store.told_of_answer ?_) nofun
  · decide +kernel
  · decide +kernel

theorem answers_agree_after_recreation :
    Vacant "/data" dataTree
      ∧ Corresponding "/data" (fun _ => noon) (fun _ => noon) dataTree madeAgainInBoth
      ∧ ((Memory.store fun _ => noon).answers {} (madeAgainInBoth.map Prod.fst)).map Answer.bare
        = ((store "/data" fun _ => noon).answers dataTree (madeAgainInBoth.map Prod.snd)).map
          Answer.bare :=
  ⟨vacant_dataTree, corresponding_madeAgainInBoth,
    answers_agree vacant_dataTree (fun _ => readsBack_noon) (fun _ => readsBack_noon)
      corresponding_madeAgainInBoth (by decide)⟩

end Runs

end PlanSync
