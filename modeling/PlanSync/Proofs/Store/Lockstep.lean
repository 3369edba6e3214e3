import PlanSync.Proofs.Store.Consistency
import PlanSync.Proofs.Store.FileListing

/-!
# Two stores step by step

A store in memory and a store in files are asked the same. What they keep *agrees* if under
every key there is nothing in either, or the same but for what the stores assign (`Agree`).
Stores that agree answer alike and agree afterwards (`InStep`), whatever is asked, as long as
the key is valid and the tree can keep it, and the objects can be read.

Only an update with a version may be answered in two ways, for the stores count versions
differently. Here it is a hypothesis that they check the version alike
(`inStep_update`).
-/

namespace PlanSync

/-! ## Without what a store assigns -/

section Bare

variable {k : Kind} {o o' : Object k}

/-- An object without what a store assigns. -/
def Object.bare (o : Object k) : Object k := o.stamped none none

/-- Stores assign no keys, so objects that differ only in what is assigned have one key. -/
theorem Object.key_of_bare (h : o.bare = o'.bare) : o.key = o'.key :=
  show o.bare.key = o'.bare.key from congrArg _ h

theorem Object.labels_of_bare (h : o.bare = o'.bare) : o.labels = o'.labels :=
  show o.bare.labels = o'.bare.labels from congrArg _ h

/-- A copy without what a store assigns. -/
def Copy.bare (c : Copy) : Copy := ⟨c.1, c.2.bare⟩

/-- An error without the words for a stale version, which name the version. -/
def StoreError.bare : StoreError → StoreError
  | conflict key _ => conflict key ""
  | e => e

/-- **An answer without what a store assigns.** -/
def Answer.bare : Except StoreError (List Copy) → Except StoreError (List Copy)
  | .ok copies => .ok (copies.map Copy.bare)
  | .error e => .error e.bare

end Bare

/-! ## Calls on a store in memory -/

namespace Memory

variable (clock : Nat → Timestamp) {m : Memory} {k : Kind} {key : ObjectKey} {o stored : Object k}

/-- What is held under a key is got. -/
theorem get_of_holds {o : Object key.kind} (h : m.Holds o) (hkey : o.key = key) :
    m.get key.kind key.namespaceName key.name = .ok o := by
  obtain ⟨j, hj, hd⟩ := h
  rw [hkey] at hj
  have hj : m.objects.get? ⟨key.kind, key.namespaceName, key.name⟩ = some j := hj
  simp only [get, hj]
  exact hd

theorem get_of_cell (h : m.cell key = none) :
    m.get key.kind key.namespaceName key.name = .error (.notFound key) := by
  have h : m.objects.get? ⟨key.kind, key.namespaceName, key.name⟩ = none := h
  simp only [get, h]

/-- Creating under a free key writes. -/
theorem create_leaves (h : m.Admits o.key) :
    ((store clock).create k o).Leaves m (.ok (m.write o (some (clock (m.lastVersion + 1)))).1)
      (m.write o (some (clock (m.lastVersion + 1)))).2 := by
  rcases create_cases clock m o with ⟨-, hcreate⟩ | ⟨hnot, -⟩
  · exact Action.leaves_of_eq hcreate
  · exact absurd h hnot

/-- Creating over an object fails by the key alone. -/
theorem create_taken (hkey : Naming.checkKey o.key = .ok ()) (h : m.Holds stored)
    (hstored : stored.key = o.key) :
    ((store clock).create k o).Leaves m (.error (.alreadyExists o.key)) m := by
  obtain ⟨j, hj, -⟩ := h
  refine Action.leaves_of_eq ((store_create o m).trans (commit_error ?_))
  show m.create _ o = _
  rw [create, hkey]
  exact if_pos (SortedMap.contains_iff.mpr ⟨j, hstored ▸ hj⟩)

theorem update_missing (hkey : Naming.checkKey o.key = .ok ()) (h : m.cell o.key = none) :
    ((store clock).update k o).Leaves m (.error (.notFound o.key)) m := by
  have h : m.objects.get? o.key = none := h
  refine Action.leaves_of_eq ((store_update o m).trans (commit_error ?_))
  show m.update o = _
  rw [update, hkey, h]
  rfl

/-- An update fails as the check of its version does. -/
theorem update_refused (hkey : Naming.checkKey o.key = .ok ()) (h : m.Holds stored)
    (hstored : stored.key = o.key) {e : StoreError} (he : checkVersion stored o = .error e) :
    ((store clock).update k o).Leaves m (.error e) m := by
  obtain ⟨j, hj, hd⟩ := h
  have hj : m.objects.get? o.key = some j := hstored ▸ hj
  refine Action.leaves_of_eq ((store_update o m).trans (commit_error ?_))
  show m.update o = _
  rw [update, hkey, hj]
  show (decode k j >>= fun stored => _) = _
  rw [hd]
  show (checkVersion stored o >>= fun _ => _) = _
  rw [he]
  rfl

/-- An update that passes all checks writes and keeps the time of creation. -/
theorem update_leaves (h : m.Replaces o stored) :
    ((store clock).update k o).Leaves m (.ok (m.write o stored.metadata.creationTimestamp).1)
      (m.write o stored.metadata.creationTimestamp).2 :=
  Action.leaves_of_eq ((store_update o m).trans
    (commit_ok (update_eq_ok_iff.mpr ⟨stored, h, rfl⟩)))

/-- **An update may carry no version**, or the one that is stored. -/
theorem checkVersion_eq_ok_iff :
    checkVersion stored o = .ok () ↔ ∀ v, o.metadata.resourceVersion = some v →
      stored.metadata.resourceVersion = some v := by
  refine ⟨fun h v => version_of_checkVersion h, fun h => ?_⟩
  unfold checkVersion
  cases hv : o.metadata.resourceVersion with
  | none => rfl
  | some v => exact if_pos (h v hv)

/-- A version that does not match is a conflict; its words differ from store to store. -/
theorem conflict_of_checkVersion {e : StoreError} (h : checkVersion stored o = .error e) :
    ∃ message, e = .conflict o.key message := by
  unfold checkVersion at h
  split at h
  · cases h
  · split at h
    · cases h
    · exact ⟨_, (Except.error.inj h).symm⟩

end Memory

/-! ## One request to each store -/

section Step

open FileStore

variable {root : String} {base : Location} {clock : Nat → Timestamp}
  {clock' : FileTree → Timestamp} {m : Memory} {t : FileTree} {k : Kind} {o o' : Object k}

/-- **What is under a key agrees**: there is nothing, or the same but for what the stores
assign. -/
inductive AgreeAt (base : Location) (m : Memory) (t : FileTree) (key : ObjectKey) : Prop
  | nothing (hcell : m.cell key = none) (htext : textAt base t key = none)
  | same {o o' : Object key.kind} {text : String} (hkey : o.key = key) (hholds : m.Holds o)
      (htext : textAt base t key = some text) (hdecode : decode key.kind text = .ok o')
      (hbare : o.bare = o'.bare)

/-- **Two stores agree** under all keys. -/
def Agree (base : Location) (m : Memory) (t : FileTree) : Prop := ∀ key, AgreeAt base m t key

/-- **Calls that are answered alike** and leave stores that agree. -/
def InStep (base : Location) (m : Memory) (t : FileTree) (call : Call Memory (List Copy))
    (call' : Call FileTree (List Copy)) : Prop :=
  Answer.bare (call m).result = Answer.bare (call' t).result
    ∧ Agree base (call m).state (call' t).state

/-- Calls are in step if their answers and what they leave are. -/
theorem inStep_of_leaves {α : Type} {call : Call Memory α} {call' : Call FileTree α}
    {f : α → List Copy} {m' : Memory} {t' : FileTree} {result result' : Except StoreError α}
    (h : call.Leaves m result m') (h' : call'.Leaves t result' t')
    (hresult : Answer.bare (result.map f) = Answer.bare (result'.map f))
    (hagree : Agree base m' t') :
    InStep base m t (do let a ← call; return f a) (do let a ← call'; return f a) := by
  have h := h.map f
  have h' := h'.map f
  rw [InStep, h.1, h.2, h'.1, h'.2]
  exact ⟨hresult, hagree⟩

/-- Both calls give one object. -/
theorem inStep_ok {call : Call Memory (Object k)} {call' : Call FileTree (Object k)} {m' : Memory}
    {t' : FileTree} (h : call.Leaves m (.ok o) m') (h' : call'.Leaves t (.ok o') t')
    (hbare : o.bare = o'.bare) (hagree : Agree base m' t') :
    InStep base m t (do let o ← call; return [(⟨k, o⟩ : Copy)])
      (do let o ← call'; return [(⟨k, o⟩ : Copy)]) :=
  inStep_of_leaves h h' (congrArg (fun o => Except.ok [(⟨k, o⟩ : Copy)]) hbare) hagree

/-- Both calls fail. -/
theorem inStep_error {α : Type} {call : Call Memory α} {call' : Call FileTree α}
    {f : α → List Copy} {m' : Memory} {t' : FileTree} {e e' : StoreError}
    (h : call.Leaves m (.error e) m') (h' : call'.Leaves t (.error e') t') (he : e.bare = e'.bare)
    (hagree : Agree base m' t') :
    InStep base m t (do let a ← call; return f a) (do let a ← call'; return f a) :=
  inStep_of_leaves h h' (congrArg Except.error he) hagree

/-- Whether a key agrees depends on what is under it. -/
theorem AgreeAt.of_eq {m' : Memory} {t' : FileTree} {key : ObjectKey} (h : AgreeAt base m t key)
    (hcell : m'.cell key = m.cell key) (htext : textAt base t' key = textAt base t key) :
    AgreeAt base m' t' key := by
  cases h with
  | nothing hnone hnone' => exact .nothing (hcell.trans hnone) (htext.trans hnone')
  | same hkey hholds hsome hdecode hbare =>
    refine .same hkey (hholds.of_cell_eq ?_) (htext.trans hsome) hdecode hbare
    rw [hkey, hcell]

/-- Directories may change. -/
theorem Agree.of_sameTexts {t' : FileTree} (h : Agree base m t) (htexts : SameTexts base t t') :
    Agree base m t' := fun key => (h key).of_eq rfl (htexts key)

/-- **Writing alike.** -/
theorem Agree.write {t' : FileTree} {version : Option String} {created created' : Option Timestamp}
    (h : Agree base m t) (hbare : o.bare = o'.bare) (ho : o.Readable)
    (ho' : decode k (FileStore.content o') = .ok o') (hc : ∀ t, created = some t → t.ReadsBack)
    (hc' : ∀ t, created' = some t → t.ReadsBack)
    (htexts : ∀ key, textAt base t' key = if key = o'.key then
      some (FileStore.content (o'.stamped version created')) else textAt base t key) :
    Agree base (m.write o created).2 t' := by
  have hkey := Object.key_of_bare hbare
  intro key
  by_cases hne : key = o'.key
  · subst hne
    have hcell := Memory.cell_write_self m o created
    have hholds : (m.write o created).2.Holds (o.stamped _ created) :=
      Memory.holds_of_cell (Object.tidy_of_readable ho).stamped hc hcell
    have hdecode : decode k _ = .ok (o'.stamped version created') :=
      decode_content_of_metadata (m := (o'.stamped version created').metadata) hc' ho'
    exact .same (o := o.stamped _ created) hkey hholds ((htexts _).trans (if_pos rfl)) hdecode hbare
  · refine (h key).of_eq (Memory.cell_write_of_ne ?_) ((htexts key).trans (if_neg hne))
    rwa [hkey]

/-- **Deleting alike.** -/
theorem Agree.drop {t' : FileTree} {key : ObjectKey} (h : Agree base m t)
    (htexts : ∀ key', textAt base t' key' = if key' = key then none else textAt base t key') :
    Agree base (m.drop key) t' := by
  intro key'
  by_cases hkey : key' = key
  · exact .nothing ((Memory.cell_drop ..).trans (if_pos hkey)) ((htexts _).trans (if_pos hkey))
  · exact (h key').of_eq ((Memory.cell_drop ..).trans (if_neg hkey))
      ((htexts _).trans (if_neg hkey))

theorem bare_map_copies {k : Kind} {os os' : List (Object k)}
    (h : os.map Object.bare = os'.map Object.bare) :
    (os.map fun o => (⟨k, o⟩ : Copy)).map Copy.bare
      = (os'.map fun o => (⟨k, o⟩ : Copy)).map Copy.bare := by
  have hmap (os : List (Object k)) : (os.map fun o => (⟨k, o⟩ : Copy)).map Copy.bare
      = (os.map Object.bare).map fun o => (⟨k, o⟩ : Copy) := by
    rw [List.map_map, List.map_map]
    rfl
  rw [hmap, hmap, h]

/-! ### Call by call -/

/-- Getting looks under the key and changes nothing. -/
theorem inStep_get (h : Layout root base t) (hagree : Agree base m t) {key : ObjectKey}
    (hkey : Naming.checkKey key = .ok ()) (hkeepable : Keepable root key) :
    InStep base m t ((Request.get key).issue (Memory.store clock))
      ((Request.get key).issue (store root clock')) := by
  have hmemory := Memory.get_leaves clock m key
  obtain ⟨result, hfiles, hcases⟩ := h.get_cases key
  cases hagree key with
  | nothing hcell htext =>
    rcases hcases with ⟨text, -, hsome, -⟩ | ⟨e, rfl, he⟩
    · cases htext.symm.trans hsome
    · rw [Memory.get_of_cell hcell] at hmemory
      rw [(he hkey).2 hkeepable] at hfiles
      exact inStep_error hmemory hfiles rfl hagree
  | same hsame hholds htext hdecode hbare =>
    rcases hcases with ⟨text, -, hsome, rfl⟩ | ⟨e, -, he⟩
    · obtain rfl := Option.some.inj (htext.symm.trans hsome)
      rw [Memory.get_of_holds hholds hsame] at hmemory
      rw [hdecode] at hfiles
      exact inStep_ok hmemory hfiles hbare hagree
    · cases htext.symm.trans (he hkey).1

/-- **Creating is answered alike**: under a free key both write, and otherwise both say that
the key is taken. -/
theorem inStep_create (h : Layout root base t) (hclock : ∀ n, (clock n).ReadsBack)
    (hclock' : ∀ t, (clock' t).ReadsBack) (hagree : Agree base m t)
    (hkey : Naming.checkKey o.key = .ok ()) (hkeepable : Keepable root o.key)
    (hbare : o.bare = o'.bare) (ho : o.Readable)
    (ho' : decode k (FileStore.content o') = .ok o') :
    InStep base m t ((Request.create k o).issue (Memory.store clock))
      ((Request.create k o').issue (store root clock')) := by
  have hkeys := Object.key_of_bare hbare
  cases hagree o.key with
  | nothing hcell htext =>
    have hmemory := Memory.create_leaves clock (m := m) (o := o) ⟨hkey, hcell⟩
    rw [hkeys] at hkey hkeepable htext
    rcases h.create_cases hclock' o' with
      ⟨t', -, -, -, hfiles, -, htexts⟩ | ⟨e, t', -, -, -, htaken⟩
    · refine inStep_ok hmemory hfiles hbare ?_
      exact hagree.write hbare ho ho' (Memory.Issued.clock_readsBack hclock _)
        (fun _ ht => Option.some.inj ht ▸ hclock' t) htexts
    · obtain ⟨⟨text, hsome⟩, -⟩ := htaken hkey hkeepable
      cases htext.symm.trans hsome
  | same hsame hholds htext hdecode _ =>
    have hmemory := Memory.create_taken clock hkey hholds hsame
    rw [hkeys] at hkey hkeepable htext
    rcases h.create_cases hclock' o' with
      ⟨t', -, hnone, -⟩ | ⟨e, t', hfiles, -, htexts, htaken⟩
    · cases htext.symm.trans hnone
    · refine inStep_error hmemory hfiles ?_ (hagree.of_sameTexts htexts)
      rw [(htaken hkey hkeepable).2, hkeys]

/-- There is nothing to update. -/
theorem inStep_update_missing (h : Layout root base t) (hagree : Agree base m t)
    (hkey : Naming.checkKey o.key = .ok ()) (hkeepable : Keepable root o.key)
    (hbare : o.bare = o'.bare) (hcell : m.cell o.key = none) (htext : textAt base t o.key = none) :
    InStep base m t ((Request.update k o).issue (Memory.store clock))
      ((Request.update k o').issue (store root clock')) := by
  have hkeys := Object.key_of_bare hbare
  have hmemory := Memory.update_missing clock hkey hcell
  rw [hkeys] at hkey hkeepable htext
  rcases h.update_cases o' with ⟨text, -, hsome, -⟩ | ⟨e, hfiles, he⟩
  · cases htext.symm.trans hsome
  · rcases he hkey with ⟨-, he⟩ | ⟨text, hsome, -⟩
    · refine inStep_error hmemory hfiles ?_ hagree
      rw [he hkeepable, hkeys]
    · cases htext.symm.trans hsome

/-- There is something to update, and both stores check the version alike. -/
theorem inStep_update_held (hm : m.Sound) (h : Layout root base t) (hagree : Agree base m t)
    (hkey : Naming.checkKey o.key = .ok ()) (hbare : o.bare = o'.bare) (ho : o.Readable)
    (ho' : decode k (FileStore.content o') = .ok o') {stored stored' : Object k} {text : String}
    (hholds : m.Holds stored) (hstored : stored.key = o.key)
    (htext : textAt base t o.key = some text) (hdecode : decode k text = .ok stored')
    (hchecked : Memory.checkVersion stored o = .ok () ↔ checkVersion stored' o' = .ok ()) :
    InStep base m t ((Request.update k o).issue (Memory.store clock))
      ((Request.update k o').issue (store root clock')) := by
  have hkeys := Object.key_of_bare hbare
  obtain ⟨j, hj, hd⟩ := id hholds
  rw [hstored] at hj
  obtain ⟨x, hwritten⟩ := (h.kept_of_textAt htext).1.written
  have hc := (hm.key_of_decode hj hd).2
  have hc' := (hwritten.of_decode hdecode).2.1
  rw [hkeys] at htext
  rcases h.update_cases o' with
    ⟨text', stored'', hsome, hdecode', hversion, t', hfiles, hlayout, htexts⟩ | ⟨e, hfiles, he⟩
  · cases htext.symm.trans hsome
    cases hdecode.symm.trans hdecode'
    have hmemory := Memory.update_leaves clock ⟨hkey, ⟨j, hj, hd⟩, hchecked.mpr hversion⟩
    exact inStep_ok hmemory hfiles hbare (hagree.write hbare ho ho' hc hc' htexts)
  · rcases he (hkeys ▸ hkey) with
      ⟨hnone, -⟩ | ⟨text', hsome, herror | ⟨stored'', hdecode', herror⟩⟩
    · cases htext.symm.trans hnone
    · cases htext.symm.trans hsome
      cases hdecode.symm.trans herror
    · cases htext.symm.trans hsome
      cases hdecode.symm.trans hdecode'
      cases hversion : Memory.checkVersion stored o with
      | ok => cases herror.symm.trans (hchecked.mp hversion)
      | error e' =>
        have hmemory := Memory.update_refused clock hkey hholds hstored hversion
        refine inStep_error hmemory hfiles ?_ hagree
        obtain ⟨message, rfl⟩ := Memory.conflict_of_checkVersion hversion
        obtain ⟨message', rfl⟩ := conflict_of_checkVersion herror
        exact congrArg (StoreError.conflict · "") hkeys

/-- Updates that both stores check alike. -/
theorem inStep_update (hm : m.Sound) (h : Layout root base t) (hagree : Agree base m t)
    (hkey : Naming.checkKey o.key = .ok ()) (hkeepable : Keepable root o.key)
    (hbare : o.bare = o'.bare) (ho : o.Readable)
    (ho' : decode k (FileStore.content o') = .ok o')
    (hchecked : ∀ (stored stored' : Object k) (text : String), m.Holds stored → stored.key = o.key →
      textAt base t o.key = some text → decode k text = .ok stored' →
      (Memory.checkVersion stored o = .ok () ↔ checkVersion stored' o' = .ok ())) :
    InStep base m t ((Request.update k o).issue (Memory.store clock))
      ((Request.update k o').issue (store root clock')) := by
  cases hagree o.key with
  | nothing hcell htext => exact inStep_update_missing h hagree hkey hkeepable hbare hcell htext
  | same hstored hholds htext hdecode _ =>
    exact inStep_update_held hm h hagree hkey hbare ho ho' hholds hstored htext hdecode
      (hchecked _ _ _ hholds hstored htext hdecode)

/-- **Deleting is answered alike**: there is something under the key in both or in neither. -/
theorem inStep_delete (h : Layout root base t) (hagree : Agree base m t) {key : ObjectKey}
    (hkey : Naming.checkKey key = .ok ()) (hkeepable : Keepable root key) :
    InStep base m t ((Request.delete key).issue (Memory.store clock))
      ((Request.delete key).issue (store root clock')) := by
  cases hagree key with
  | nothing hcell htext =>
    rcases Memory.delete_cases clock m key with ⟨⟨j, hj⟩, -⟩ | ⟨-, hmemory⟩
    · cases hcell.symm.trans hj
    rcases h.delete_cases key with ⟨⟨text, hsome⟩, -⟩ | ⟨e, hfiles, he⟩
    · cases htext.symm.trans hsome
    refine inStep_error (Action.leaves_of_eq hmemory) hfiles ?_ hagree
    rw [(he hkey).2 hkeepable]
  | same hsame hholds htext hdecode hbare =>
    obtain ⟨j, hj, -⟩ := hholds
    rcases Memory.delete_cases clock m key with ⟨-, hmemory⟩ | ⟨hnone, -⟩
    · rcases h.delete_cases key with ⟨-, t', hfiles, -, htexts⟩ | ⟨e, -, he⟩
      · exact inStep_of_leaves (Action.leaves_of_eq hmemory) hfiles rfl (hagree.drop htexts)
      · cases htext.symm.trans (he hkey).1
    · rw [hsame] at hj
      cases hnone.symm.trans hj

/-! ### Listings -/

/-- Everything in memory can be read. -/
theorem Agree.legible (h : Agree base m t) : m.Legible := by
  intro key j hj
  cases h key with
  | nothing hcell => cases hcell.symm.trans hj
  | @same o _ _ hkey hholds =>
    obtain ⟨j', hj', hd⟩ := hholds
    rw [hkey] at hj'
    cases hj.symm.trans hj'
    exact ⟨o, hd⟩

/-- What is held in memory is in a file, too. -/
theorem Agree.exists_text (h : Agree base m t) (ho : m.Holds o) :
    ∃ (o' : Object k) (text : String), textAt base t o'.key = some text
      ∧ decode k text = .ok o' ∧ o.bare = o'.bare := by
  cases h o.key with
  | nothing hcell => exact absurd hcell (ho.cell_ne_none rfl)
  | @same a a' text hkey hholds htext hdecode hbare =>
    have hbare : o.bare = a'.bare := (congrArg Object.bare (ho.unique hholds hkey.symm)).trans hbare
    have hkeys : a'.key = o.key := (Object.key_of_bare hbare).symm
    exact ⟨a', text, (congrArg (textAt base t) hkeys).trans htext, hdecode, hbare⟩

/-- What is read from a file is held in memory, too. -/
theorem Agree.exists_held (h : Agree base m t) {text : String}
    (htext : textAt base t o'.key = some text) (ho' : decode k text = .ok o') :
    ∃ o : Object k, m.Holds o ∧ o.bare = o'.bare := by
  cases h o'.key with
  | nothing _ hnone => cases htext.symm.trans hnone
  | @same a a' text' _ hholds hsome hdecode hbare =>
    cases htext.symm.trans hsome
    exact ⟨a, hholds, hbare.trans (congrArg Object.bare (Except.ok.inj (hdecode.symm.trans ho')))⟩

/-- **Listing is answered alike**: both give what they hold in the order of the names, and what
the selector looks at is not assigned by a store. -/
theorem inStep_list (hm : m.Sound) (h : Layout root base t) (hagree : Agree base m t) (k : Kind)
    {namespaceName : String} (selector : Selector)
    (hnamespace : Naming.isStorable namespaceName = true)
    (hpath : FileTree.checkPath (directory root k namespaceName) = .ok ())
    (hsize : namespaceName.utf8ByteSize ≤ FileTree.maxNameBytes) :
    InStep base m t ((Request.list k namespaceName selector).issue (Memory.store clock))
      ((Request.list k namespaceName selector).issue (store root clock')) := by
  obtain ⟨os, hos, hmem, hsorted⟩ := Memory.exists_list hm hagree.legible k namespaceName selector
  have hmemory := Memory.list_leaves clock m k namespaceName selector
  rw [hos] at hmemory
  obtain ⟨result, hfiles, hlisted, hreads⟩ := h.list_cases k namespaceName selector
  obtain ⟨os', rfl⟩ := hreads hnamespace hpath hsize (fun name text htext => by
    cases hagree ⟨k, namespaceName, name⟩ with
    | nothing _ hnone => cases htext.symm.trans hnone
    | same _ _ hsome hdecode =>
      cases htext.symm.trans hsome
      exact ⟨_, hdecode⟩)
  obtain ⟨hmem', hsorted'⟩ := hlisted os' rfl
  refine inStep_of_leaves hmemory hfiles (congrArg Except.ok (bare_map_copies ?_)) hagree
  -- the same objects but for what the stores assign, in the order of their names
  have hnames (os : List (Object k)) :
      (os.map Object.bare).map Object.name = os.map Object.name := by
    rw [List.map_map]
    rfl
  refine eq_of_sorted ((hnames os).symm ▸ hsorted) ((hnames os').symm ▸ hsorted') fun o => ?_
  rw [List.mem_map, List.mem_map]
  constructor
  · rintro ⟨a, ha, rfl⟩
    obtain ⟨hholds, hin, haccepts⟩ := (hmem a).mp ha
    obtain ⟨a', text, htext, hdecode, hbare⟩ := hagree.exists_text hholds
    have hnamespace : a.namespaceName = a'.namespaceName :=
      congrArg ObjectKey.namespaceName (Object.key_of_bare hbare)
    rw [hnamespace] at hin
    rw [Object.labels_of_bare hbare] at haccepts
    exact ⟨a', (hmem' a').mpr ⟨hin, haccepts, text, htext, hdecode⟩, hbare.symm⟩
  · rintro ⟨a', ha', rfl⟩
    obtain ⟨hin, haccepts, text, htext, hdecode⟩ := (hmem' a').mp ha'
    obtain ⟨a, hholds, hbare⟩ := hagree.exists_held htext hdecode
    have hnamespace : a.namespaceName = a'.namespaceName :=
      congrArg ObjectKey.namespaceName (Object.key_of_bare hbare)
    rw [← hnamespace] at hin
    rw [← Object.labels_of_bare hbare] at haccepts
    exact ⟨a, (hmem a).mpr ⟨hholds, hin, haccepts⟩, hbare⟩

end Step

end PlanSync
