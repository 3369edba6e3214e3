import Mathlib.Data.List.Count
import PlanSync.Proofs.Store.FileListing
import PlanSync.Proofs.Store.History

/-!
# Stale copies and a store in files

A store in files counts the versions of every object for itself, and begins again when an
object is created again. So what guards an update holds within the life of an object: an
update that carries the version of a copy succeeds only if nobody has changed the object
since, unless the object has been created again since, or as often updated as there are
words (`FileStore.update_guarded`). Whoever holds a copy of an object that was deleted and
created again is not told so, and replaces the new object (`FileStore.stale_copy_accepted`).

The guard rests on counting. From one call to the next, the number of a version is one more
for each update of the key and otherwise the same, modulo the words, for as long as nobody
creates the object again (`FileStore.numbered_after`).
-/

namespace PlanSync

namespace FileStore

open FileTree

variable {root : String} {base : Location} {clock : FileTree → Timestamp} {t t' : FileTree}
  {key : ObjectKey} {k : Kind} {r : Request} {requests : List Request}

/-! ## One request -/

/-- **How a request is answered**: it is refused and changes no text, it only looks and gives
what the texts say, or it changes the text of its key. -/
inductive Issued (root : String) (base : Location) (t : FileTree) :
    Request → Except StoreError (List Copy) → FileTree → Prop
  | refused {r : Request} {e : StoreError} {t' : FileTree} (hlayout : Layout root base t')
      (htexts : SameTexts base t t') : Issued root base t r (.error e) t'
  | looked {r : Request} {copies : List Copy} (hlook : r.target? = none)
      (hlayout : Layout root base t)
      (hread : ∀ c ∈ copies, ∃ text, textAt base t c.key = some text ∧ decode c.1 text = .ok c.2) :
    Issued root base t r (.ok copies) t
  | created {k : Kind} {o : Object k} {created : Timestamp} {t' : FileTree}
      (hcreated : created.ReadsBack) (hlayout : Layout root base t')
      (htexts : ∀ key, textAt base t' key = if key = o.key then
          some (content (o.stamped (some (Text.decimal 1)) (some created)))
        else textAt base t key) :
    Issued root base t (.create k o)
      (.ok [⟨k, o.stamped (some (Text.decimal 1)) (some created)⟩]) t'
  | updated {k : Kind} {o stored : Object k} {text : String} {t' : FileTree}
      (htext : textAt base t o.key = some text) (hstored : decode k text = .ok stored)
      (hversion : checkVersion stored o = .ok ()) (hlayout : Layout root base t')
      (htexts : ∀ key, textAt base t' key = if key = o.key then
          some (content (o.stamped (some (nextVersion stored.metadata.resourceVersion))
            stored.metadata.creationTimestamp))
        else textAt base t key) :
    Issued root base t (.update k o) (.ok [⟨k, o.stamped
      (some (nextVersion stored.metadata.resourceVersion)) stored.metadata.creationTimestamp⟩]) t'
  | deleted {key : ObjectKey} {t' : FileTree} (hlayout : Layout root base t')
      (htexts : ∀ key', textAt base t' key' = if key' = key then none else textAt base t key') :
    Issued root base t (.delete key) (.ok []) t'

/-- **Every request is answered so.** -/
theorem exists_issued (hclock : ∀ t, (clock t).ReadsBack) (h : Layout root base t) (r : Request) :
    ∃ result t', (r.issue (store root clock)).Leaves t result t'
      ∧ Issued root base t r result t' := by
  have hsame : SameTexts base t t := fun _ => rfl
  cases r with
  | get key =>
    obtain ⟨result, hleaves, hcases⟩ := h.get_cases key
    refine ⟨_, _, hleaves.map fun o => [(⟨key.kind, o⟩ : Copy)], ?_⟩
    rcases hcases with ⟨text, -, htext, hresult⟩ | ⟨e, hresult, -⟩
    · subst hresult
      cases ho : decode key.kind text with
      | error e => exact .refused h hsame
      | ok o =>
        refine .looked rfl h fun c hc => ?_
        obtain rfl := List.mem_singleton.mp hc
        obtain ⟨x, hwritten⟩ := (h.kept_of_textAt htext).1.written
        have hkey : o.key = key := (hwritten.of_decode ho).1
        exact ⟨text, (congrArg _ hkey).trans htext, ho⟩
    · subst hresult
      exact .refused h hsame
  | list k namespaceName selector =>
    obtain ⟨result, hleaves, hlisted, -⟩ := h.list_cases k namespaceName selector
    refine ⟨_, _, hleaves.map (List.map fun o : Object k => (⟨k, o⟩ : Copy)), ?_⟩
    cases result with
    | error e => exact .refused h hsame
    | ok os =>
      refine .looked rfl h fun c hc => ?_
      obtain ⟨o, ho, rfl⟩ := List.mem_map.mp hc
      exact (((hlisted os rfl).mem o).mp ho).2.2
  | create k o =>
    rcases h.create_cases hclock o with
      ⟨t', -, -, -, hleaves, hlayout, htexts⟩ | ⟨e, t', hleaves, hlayout, htexts, -⟩
    · exact ⟨_, _, hleaves.map fun o => [(⟨k, o⟩ : Copy)],
        .created (hclock t) hlayout htexts⟩
    · exact ⟨_, _, hleaves.map fun o => [(⟨k, o⟩ : Copy)],
        .refused hlayout htexts⟩
  | update k o =>
    rcases h.update_cases o with
      ⟨text, stored, htext, hstored, hversion, t', hleaves, hlayout, htexts⟩ | ⟨e, hleaves, -⟩
    · exact ⟨_, _, hleaves.map fun o => [(⟨k, o⟩ : Copy)],
        .updated htext hstored hversion hlayout htexts⟩
    · exact ⟨_, _, hleaves.map fun o => [(⟨k, o⟩ : Copy)], .refused h hsame⟩
  | delete key =>
    rcases h.delete_cases key with ⟨-, t', hleaves, hlayout, htexts⟩ | ⟨e, hleaves, -⟩
    · exact ⟨_, _, hleaves.map fun _ => [], .deleted hlayout htexts⟩
    · exact ⟨_, _, hleaves.map fun _ => [], .refused h hsame⟩

theorem issued (hclock : ∀ t, (clock t).ReadsBack) (h : Layout root base t) (r : Request) :
    Issued root base t r (r.issue (store root clock) t).result
      (r.issue (store root clock) t).state := by
  obtain ⟨result, t', ⟨hresult, hstate⟩, hissued⟩ := exists_issued hclock h r
  rwa [hresult, hstate]

/-- **What is under a key has a version with this number**, if anything is there. -/
def Numbered (base : Location) (t : FileTree) (key : ObjectKey) (x : Nat) : Prop :=
  ∀ text, textAt base t key = some text → Written key x text

namespace Issued

variable {result : Except StoreError (List Copy)} {copies : List Copy}

theorem layout (h : Issued root base t r result t') : Layout root base t' := by
  cases h <;> assumption

/-- **A copy is of what is there**, under the number of its version. -/
theorem given (hbefore : Layout root base t) (h : Issued root base t r (.ok copies) t') {c : Copy}
    (hc : c ∈ copies) : ∃ x text, textAt base t' c.key = some text ∧ Written c.key x text
      ∧ c.version = some (Text.decimal x) := by
  cases h with
  | looked hlook hlayout hread =>
    obtain ⟨text, htext, ho⟩ := hread c hc
    obtain ⟨x, hwritten⟩ := (hlayout.kept_of_textAt htext).1.written
    exact ⟨x, text, htext, hwritten, (hwritten.of_decode ho).2.2.1⟩
  | created hcreated hlayout htexts =>
    obtain rfl := List.mem_singleton.mp hc
    refine ⟨1, _, (htexts _).trans (if_pos rfl), ?_, rfl⟩
    exact written_stamped _ (by decide) fun _ ht => Option.some.inj ht ▸ hcreated
  | @updated k o stored text t' htext hstored hversion hlayout htexts =>
    obtain rfl := List.mem_singleton.mp hc
    obtain ⟨x, hwritten⟩ := (hbefore.kept_of_textAt htext).1.written
    obtain ⟨-, hc, hx, hbound⟩ := hwritten.of_decode hstored
    rw [hx, nextVersion_decimal hbound] at htexts ⊢
    exact ⟨_, _, (htexts _).trans (if_pos rfl), written_stamped o (lt_wordBound_of_mod _) hc, rfl⟩
  | deleted => cases hc

/-- An update that succeeds has replaced an object. -/
theorem exists_replaced {o : Object k} (h : Issued root base t (.update k o) (.ok copies) t') :
    ∃ text, ∃ stored : Object k, textAt base t o.key = some text ∧ decode k text = .ok stored
      ∧ checkVersion stored o = .ok () := by
  cases h with
  | looked hlook => cases hlook
  | updated htext hstored hversion => exact ⟨_, _, htext, hstored, hversion⟩

/-- **A request changes the text of its key only.** -/
theorem textAt_of_ne (h : Issued root base t r result t') (hne : r.target? ≠ some key) :
    textAt base t' key = textAt base t key := by
  cases h with
  | refused _ htexts => exact htexts key
  | looked => rfl
  | created _ _ htexts | updated _ _ _ _ htexts =>
    exact (htexts key).trans (if_neg fun heq => hne (congrArg some heq.symm))
  | deleted _ htexts => exact (htexts key).trans (if_neg fun heq => hne (congrArg some heq.symm))

theorem numbered_of_error {e : StoreError} (h : Issued root base t r (.error e) t') {x : Nat}
    (hx : Numbered base t key x) : Numbered base t' key x := by
  cases h with
  | refused _ htexts => exact fun text htext => hx text ((htexts key).symm.trans htext)

/-- **The number goes on with every change**, unless the key is created again. -/
theorem numbered (h : Issued root base t r (.ok copies) t') {x : Nat} (hx : Numbered base t key x)
    (hnew : r.creates? ≠ some key) :
    Numbered base t' key (if r.target? = some key then (x + 1) % Text.wordBound else x) := by
  by_cases htarget : r.target? = some key
  · rw [if_pos htarget]
    cases h with
    | looked hlook => cases hlook.symm.trans htarget
    | created => exact absurd htarget hnew
    | @updated k o stored text t' htext hstored hversion hlayout htexts =>
      obtain rfl := Option.some.inj htarget
      intro text' htext'
      obtain ⟨-, hc, hversion, hbound⟩ := (hx text htext).of_decode hstored
      rw [htexts, if_pos rfl, hversion, nextVersion_decimal hbound] at htext'
      cases htext'
      exact written_stamped o (lt_wordBound_of_mod _) hc
    | deleted _ htexts =>
      obtain rfl := Option.some.inj htarget
      intro text' htext'
      cases htext'.symm.trans ((htexts _).trans (if_pos rfl))
  · rw [if_neg htarget]
    exact fun text htext => hx text ((h.textAt_of_ne htarget).symm.trans htext)

end Issued

/-! ## Runs -/

theorem layout_after (hclock : ∀ t, (clock t).ReadsBack) (h : Layout root base t)
    (requests : List Request) : Layout root base ((store root clock).after t requests) :=
  Store.after_induction _ h fun _ r _ h => (issued hclock h r).layout

/-- **The number of a version counts the changes**, for as long as nobody creates the key
again. -/
theorem numbered_after (hclock : ∀ t, (clock t).ReadsBack) (h : Layout root base t) {x : Nat}
    (hbound : x < Text.wordBound) (hx : Numbered base t key x)
    (hnew : ∀ r ∈ (store root clock).succeeded t requests, r.creates? ≠ some key) :
    Numbered base ((store root clock).after t requests) key
      ((x + ((store root clock).succeeded t requests).countP fun r => r.target? = some key)
        % Text.wordBound) := by
  induction requests generalizing t x with
  | nil => rwa [Store.succeeded, List.countP_nil, Nat.add_zero, Nat.mod_eq_of_lt hbound]
  | cons r requests ih =>
    have hissued := issued hclock h r
    rw [Store.after_cons]
    rw [Store.succeeded] at hnew ⊢
    split at hnew
    · next copies hok =>
      rw [hok] at hissued
      rw [List.forall_mem_cons] at hnew
      have hx' := hissued.numbered hx hnew.1
      rw [List.countP_cons]
      by_cases htarget : r.target? = some key
      · rw [if_pos htarget] at hx'
        have ih := ih hissued.layout (lt_wordBound_of_mod _) hx' hnew.2
        rw [Nat.mod_add_mod] at ih
        simpa [htarget, Nat.add_assoc, Nat.add_comm 1] using ih
      · rw [if_neg htarget] at hx'
        simpa [htarget] using ih hissued.layout hbound hx' hnew.2
    · next e herror =>
      rw [herror] at hissued
      exact ih hissued.layout hbound (hissued.numbered_of_error hx) hnew

/-- Fewer changes than there are words lead to another number. -/
theorem eq_zero_of_mod {x n : Nat} (hx : x < Text.wordBound) (hn : n < Text.wordBound)
    (h : (x + n) % Text.wordBound = x) : n = 0 := by
  rcases Nat.lt_or_ge (x + n) Text.wordBound with hlt | hge
  · rw [Nat.mod_eq_of_lt hlt] at h
    omega
  · rw [Nat.mod_eq_sub_mod hge, Nat.mod_eq_of_lt (by omega)] at h
    omega

/-! ## Updates with copies -/

/-- **Vacant**: the root of a store leads to a directory in which nothing is. -/
def Vacant (root : String) (t : FileTree) : Prop :=
  ∃ base, t.Leads root base ∧ ∀ l, l ≠ [] → t.node? (base ++ l) = none

/-- A vacant tree has the layout of a store. -/
theorem Vacant.exists_layout (h : Vacant root t) :
    ∃ base, Layout root base t ∧ ∀ key, textAt base t key = none := by
  obtain ⟨base, hleads, hnone⟩ := h
  refine ⟨base, ⟨hleads, fun l n hl hn => ?_⟩, fun key => ?_⟩
  · cases (hnone l hl).symm.trans hn
  · rw [textAt, place, hnone _ (List.cons_ne_nil _ _)]

/-- A request that gave copies was answered at its place in the run. -/
theorem issued_of_gives (hclock : ∀ t, (clock t).ReadsBack) (h : Layout root base t)
    {before : List Request} {copies : List Copy}
    (hgives : (store root clock).Gives t before r copies) :
    Issued root base ((store root clock).after t before) r (.ok copies)
      ((store root clock).after t (before ++ [r])) := by
  have hissued := issued hclock (layout_after hclock h before) r
  rwa [show (r.issue (store root clock) ((store root clock).after t before)).result = .ok copies
    from hgives, ← Store.after_append_singleton] at hissued

/-- **What has become of the number of a copy.** -/
theorem numbered_of_gives (hclock : ∀ t, (clock t).ReadsBack) (h : Layout root base t)
    {before between : List Request} {copies : List Copy}
    (hgives : (store root clock).Gives t before r copies) {c : Copy} (hc : c ∈ copies)
    (hnew : ∀ s ∈ (store root clock).succeededSince t before r between, s.creates? ≠ some c.key) :
    ∃ x, x < Text.wordBound ∧ c.version = some (Text.decimal x)
      ∧ Numbered base ((store root clock).after t (before ++ r :: between)) c.key
        ((x + ((store root clock).succeededSince t before r between).countP fun s =>
          s.target? = some c.key) % Text.wordBound) := by
  obtain ⟨x, text, htext, hwritten, hversion⟩ :=
    (issued_of_gives hclock h hgives).given (layout_after hclock h before) hc
  have hbound : x < Text.wordBound := by
    obtain ⟨-, -, -, -, hbound, -⟩ := hwritten
    exact hbound
  refine ⟨x, hbound, hversion, ?_⟩
  rw [Store.after_append_cons]
  refine numbered_after hclock (layout_after hclock h _) hbound (fun text' htext' => ?_) hnew
  rwa [Option.some.inj (htext'.symm.trans htext)]

/-- **The key of a copy can be stored and kept.** -/
theorem kept_of_gives (hclock : ∀ t, (clock t).ReadsBack) (h : Layout root base t)
    {before : List Request} {copies : List Copy}
    (hgives : (store root clock).Gives t before r copies) {c : Copy} (hc : c ∈ copies) :
    Naming.checkKey c.key = .ok () ∧ Keepable root c.key := by
  obtain ⟨x, text, htext, -⟩ :=
    (issued_of_gives hclock h hgives).given (layout_after hclock h before) hc
  have hkept := ((layout_after hclock h _).kept_of_textAt htext).1
  exact ⟨hkept.storable, hkept.keepable⟩

/-- **An update with a copy succeeds** only if its key has not been changed since the copy was
given, or was created again since, or was changed as often as there are words. -/
theorem unchanged_of_update (hclock : ∀ t, (clock t).ReadsBack) (h : Layout root base t)
    {before between : List Request} {copies copies' : List Copy}
    (hgives : (store root clock).Gives t before r copies) {c u : Copy} (hc : c ∈ copies)
    (hkey : c.key = u.key) (hversion : c.version = u.version)
    (hupdate : (store root clock).Gives t (before ++ r :: between) (.update u.1 u.2) copies') :
    (∀ s ∈ (store root clock).succeededSince t before r between, s.target? ≠ some u.key)
      ∨ (∃ s ∈ (store root clock).succeededSince t before r between, s.creates? = some u.key)
      ∨ Text.wordBound ≤ ((store root clock).succeededSince t before r between).countP fun s =>
        s.target? = some u.key := by
  by_cases hnew : ∃ s ∈ (store root clock).succeededSince t before r between,
      s.creates? = some u.key
  · exact .inr (.inl hnew)
  have hkept : ∀ s ∈ (store root clock).succeededSince t before r between,
      s.creates? ≠ some c.key := fun s hs hcreates => hnew ⟨s, hs, hkey ▸ hcreates⟩
  obtain ⟨x, hbound, hx, hnumbered⟩ := numbered_of_gives hclock h hgives hc hkept
  rw [hkey] at hnumbered
  generalize hchanges : List.countP _ _ = n at hnumbered ⊢
  -- the version of the copy is the version that stands there now
  have hmod : (x + n) % Text.wordBound = x := by
    have hissued := issued_of_gives hclock h hupdate
    obtain ⟨text, stored, htext, hstored, hchecked⟩ := hissued.exists_replaced
    have hnow := ((hnumbered text htext).of_decode hstored).2.2.1
    have hthen := checkVersion_eq_ok_iff.mp hchecked _ (hversion.symm.trans hx)
    exact Text.decimal_injective (Option.some.inj (hnow.symm.trans hthen))
  by_cases hn : n < Text.wordBound
  · refine .inl ?_
    rw [eq_zero_of_mod hbound hn hmod, List.countP_eq_zero] at hchanges
    exact fun s hs htarget => hchanges s hs (decide_eq_true htarget)
  · exact .inr (.inr (Nat.not_lt.mp hn))

/-- **An update with a copy that fails** changes nothing, and says that the object is gone or
has changed, or that its file cannot be read. -/
theorem refused_of_update (hclock : ∀ t, (clock t).ReadsBack) (h : Layout root base t)
    {before between : List Request} {copies : List Copy}
    (hgives : (store root clock).Gives t before r copies) {c u : Copy} (hc : c ∈ copies)
    (hkey : c.key = u.key) {e : StoreError} {t' : FileTree}
    (hupdate : ((Request.update u.1 u.2).issue (store root clock)).Leaves
      ((store root clock).after t (before ++ r :: between)) (.error e) t') :
    t' = (store root clock).after t (before ++ r :: between)
      ∧ (e = .notFound u.key ∨ (∃ message, e = .conflict u.key message)
        ∨ ∃ cause, e = .json cause ∧ ((Request.get u.key).issue (store root clock)
          ((store root clock).after t (before ++ r :: between))).result = .error e) := by
  obtain ⟨hstorable, hkeepable⟩ := kept_of_gives hclock h hgives hc
  rw [hkey] at hstorable hkeepable
  have hnow := layout_after hclock h (before ++ r :: between)
  generalize (store root clock).after t (before ++ r :: between) = s at hnow hupdate ⊢
  rcases hnow.update_cases u.2 with ⟨_, _, -, -, -, s', hleaves, -⟩ | ⟨e', hleaves, he⟩
  · have hleaves := hleaves.map fun o => [(⟨u.1, o⟩ : Copy)]
    cases hupdate.1.symm.trans hleaves.1
  · have hleaves := hleaves.map fun o => [(⟨u.1, o⟩ : Copy)]
    cases hupdate.1.symm.trans hleaves.1
    refine ⟨hupdate.2.symm.trans hleaves.2, ?_⟩
    rcases he hstorable with ⟨-, he⟩ | ⟨text, htext, hdecode | ⟨stored, -, hversion⟩⟩
    · exact .inl (he hkeepable)
    · obtain ⟨cause, rfl⟩ := json_of_decode hdecode
      refine .inr (.inr ⟨cause, rfl, ?_⟩)
      obtain ⟨result, hget, ⟨text', -, htext', rfl⟩ | ⟨_, rfl, hnone⟩⟩ := hnow.get_cases u.key
      · cases htext.symm.trans htext'
        exact (hget.map fun o => [(⟨u.1, o⟩ : Copy)]).1.trans
          (congrArg (Except.map _) hdecode)
      · cases (hnone hstorable).1.symm.trans htext
    · exact .inr (.inl (conflict_of_checkVersion hversion))

/-- **What guards an update with a copy.** Whatever has been asked of a store in files since the
copy was given: the update succeeds only if its key has not been changed since, or was created
again since, or was changed as often as there are words; if it fails, it changes nothing. -/
theorem update_guarded (hvacant : Vacant root t) (hclock : ∀ t, (clock t).ReadsBack)
    {before between : List Request} {copies : List Copy}
    (hgives : (store root clock).Gives t before r copies) {c u : Copy} (hc : c ∈ copies)
    (hkey : c.key = u.key) (hversion : c.version = u.version) :
    (∀ copies', (store root clock).Gives t (before ++ r :: between) (.update u.1 u.2) copies' →
        (∀ s ∈ (store root clock).succeededSince t before r between, s.target? ≠ some u.key)
          ∨ (∃ s ∈ (store root clock).succeededSince t before r between, s.creates? = some u.key)
          ∨ Text.wordBound ≤ ((store root clock).succeededSince t before r between).countP fun s =>
            s.target? = some u.key)
      ∧ ∀ e t', ((Request.update u.1 u.2).issue (store root clock)).Leaves
          ((store root clock).after t (before ++ r :: between)) (.error e) t' →
        t' = (store root clock).after t (before ++ r :: between)
          ∧ (e = .notFound u.key ∨ (∃ message, e = .conflict u.key message)
            ∨ ∃ cause, e = .json cause ∧ ((Request.get u.key).issue (store root clock)
              ((store root clock).after t (before ++ r :: between))).result = .error e) := by
  obtain ⟨base, hlayout, -⟩ := hvacant.exists_layout
  exact ⟨fun _ hupdate => unchanged_of_update hclock hlayout hgives hc hkey hversion hupdate,
    fun _ _ hupdate => refused_of_update hclock hlayout hgives hc hkey hupdate⟩

/-- The first object of a store is created. -/
theorem Vacant.gives_create (h : Vacant root t) (hclock : ∀ t, (clock t).ReadsBack) {o : Object k}
    (hkey : Naming.checkKey o.key = .ok ()) (hkeepable : Keepable root o.key) :
    (store root clock).Gives t [] (.create k o)
      [⟨k, o.stamped (some (Text.decimal 1)) (some (clock t))⟩] := by
  obtain ⟨base, hlayout, hnone⟩ := h.exists_layout
  rcases hlayout.create_cases hclock o with ⟨t', -, -, -, hleaves, -⟩ | ⟨e, t', -, -, -, htaken⟩
  · exact (hleaves.map fun o => [(⟨k, o⟩ : Copy)]).1
  · obtain ⟨⟨text, htext⟩, -⟩ := htaken hkey hkeepable
    cases (hnone o.key).symm.trans htext

/-! ### A directory of its own -/

/-- A tree with a directory for a store. -/
def dataTree : FileTree := ({} : FileTree).put ["data"] .directory

theorem vacant_dataTree : Vacant "/data" dataTree := by
  refine ⟨["data"], ⟨by rfl, by rfl⟩, fun l hl => ?_⟩
  have hne : ["data"] ++ l ≠ ["data"] := fun heq =>
    hl (List.append_cancel_left (heq.trans (List.append_nil _).symm))
  rw [dataTree, node?_put _ (List.cons_ne_nil _ _), if_neg hne]
  rfl

theorem keepable_plainSource : Keepable "/data" plainSource.key :=
  ⟨by decide, by decide, by decide⟩

/-- After an update without a version, an update with the version before it is refused. -/
theorem update_guarded_after_update :
    Vacant "/data" dataTree
      ∧ (store "/data" fun _ => noon).Gives dataTree [] (.create .gitRepository plainSource)
        [⟨.gitRepository, plainSource.stamped (some "1") (some noon)⟩]
      ∧ ((store "/data" fun _ => noon).answers dataTree
          [.create .gitRepository plainSource, .update .gitRepository plainSource,
            .update .gitRepository (plainSource.stamped (some "1") none)]).map
          (fun answer => answer.toOption.map fun copies => copies.map Copy.version)
        = [some [some "1"], some [some "2"], none]
      ∧ ∀ copies', (store "/data" fun _ => noon).Gives dataTree
          ([] ++ .create .gitRepository plainSource :: [.update .gitRepository plainSource])
          (.update .gitRepository (plainSource.stamped (some "1") none)) copies' →
        (∀ s ∈ (store "/data" fun _ => noon).succeededSince dataTree []
            (.create .gitRepository plainSource) [.update .gitRepository plainSource],
            s.target? ≠ some plainSource.key)
          ∨ (∃ s ∈ (store "/data" fun _ => noon).succeededSince dataTree []
            (.create .gitRepository plainSource) [.update .gitRepository plainSource],
            s.creates? = some plainSource.key)
          ∨ Text.wordBound ≤ ((store "/data" fun _ => noon).succeededSince dataTree []
            (.create .gitRepository plainSource) [.update .gitRepository plainSource]).countP
            fun s => s.target? = some plainSource.key := by
  have hgives : (store "/data" fun _ => noon).Gives dataTree []
      (.create .gitRepository plainSource)
      [⟨.gitRepository, plainSource.stamped (some "1") (some noon)⟩] :=
    vacant_dataTree.gives_create (fun _ => readsBack_noon) (by decide)
      keepable_plainSource
  refine ⟨vacant_dataTree, hgives, by decide +kernel, ?_⟩
  exact (update_guarded (u := ⟨.gitRepository, plainSource.stamped (some "1") none⟩)
    vacant_dataTree (fun _ => readsBack_noon) hgives (List.mem_singleton_self _) rfl rfl).1

/-- **A stale copy of an object that was created again** is accepted: the new object has the
version of the old one. -/
theorem stale_copy_accepted :
    ((store "/data" fun _ => noon).answers dataTree madeAgain).map
        (fun answer => answer.toOption.map fun copies => copies.map Copy.version)
      = [some [some "1"], some [], some [some "1"], some [some "2"]] := by
  decide +kernel

end FileStore

end PlanSync
