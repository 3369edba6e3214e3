import PlanSync.Proofs.Action
import PlanSync.Proofs.PullRequest
import PlanSync.Proofs.Store.Layout
import PlanSync.Proofs.Store.Requests

/-!
# Calls on a store in files

What each call comes to, told by the texts under the keys: a call reads the text of its key,
replaces it or removes it, and no other text changes (`FileStore.Layout.create_cases` and its
neighbours). Every call keeps the layout. Only creating can fail and yet leave something
behind, namely the directory for an object that is not written; no text changes even then.

An update gives the version after the one that it replaces, while creating begins with the
first version again.
-/

namespace PlanSync

namespace FileStore

open FileTree

/-! ## Versions -/

theorem nextVersion_decimal {x : Nat} (h : x < Text.wordBound) :
    nextVersion (some (Text.decimal x)) = Text.decimal ((x + 1) % Text.wordBound) := by
  rw [nextVersion, versionNumber, Option.bind_some, Text.readWord?_decimal h, Option.getD_some]

theorem lt_wordBound_of_mod (x : Nat) : x % Text.wordBound < Text.wordBound :=
  Nat.mod_lt _ (by decide)

/-- A version that is carried is compared. -/
theorem checkVersion_eq_ok_iff {k : Kind} {stored o : Object k} :
    checkVersion stored o = .ok () ↔ ∀ v, o.metadata.resourceVersion = some v →
      stored.metadata.resourceVersion = some v := by
  rw [checkVersion]
  cases o.metadata.resourceVersion with
  | none => exact ⟨fun _ _ hv => (by cases hv), fun _ => rfl⟩
  | some v =>
    simp only [Option.some_inj, forall_eq']
    split
    · next h => exact ⟨fun _ => h, fun _ => rfl⟩
    · next h => exact ⟨fun herror => (by cases herror), fun hv => absurd hv h⟩

/-- A text that cannot be read says why. -/
theorem json_of_decode {k : Kind} {text : String} {e : StoreError} (h : decode k text = .error e) :
    ∃ cause, e = .json cause := by
  rw [decode] at h
  cases hread : Decoder.ofText (Object.decoder k) text with
  | error cause =>
    rw [hread] at h
    exact ⟨cause, (Except.error.inj h).symm⟩
  | ok o =>
    rw [hread] at h
    cases h

theorem conflict_of_checkVersion {k : Kind} {stored o : Object k} {e : StoreError}
    (h : checkVersion stored o = .error e) : ∃ message, e = .conflict o.key message := by
  rw [checkVersion] at h
  split at h
  · cases h
  · split at h
    · cases h
    · exact ⟨_, (Except.error.inj h).symm⟩

/-- What is read from a written text has the metadata it was written with. -/
theorem Written.of_decode {key : ObjectKey} {x : Nat} {text : String} (h : Written key x text)
    {o : Object key.kind} (ho : decode key.kind text = .ok o) :
    o.key = key ∧ o.CreationReadsBack ∧ o.metadata.resourceVersion = some (Text.decimal x)
      ∧ x < Text.wordBound := by
  obtain ⟨o', hkey, hc, hversion, hx, rfl⟩ := h
  have hmetadata := metadata_of_decode_content hc ho
  refine ⟨Eq.trans ?_ hkey, fun t ht => hc t (hmetadata ▸ ht), hmetadata ▸ hversion, hx⟩
  simp only [Object.key, Object.name, Object.namespaceName, hmetadata]

/-- What a store writes is written. -/
theorem written_stamped {k : Kind} (o : Object k) {x : Nat} (hx : x < Text.wordBound)
    {created : Option Timestamp} (hc : ∀ t, created = some t → t.ReadsBack) :
    Written o.key x (content (o.stamped (some (Text.decimal x)) created)) :=
  ⟨o.stamped (some (Text.decimal x)) created, rfl, hc, rfl, hx, rfl⟩

/-- A path that is not too long is not too long without its last name. -/
theorem checkPath_of_join {path name : String} (hname : Path.IsName name)
    (h : checkPath (Path.join path name) = .ok ()) : checkPath path = .ok () := by
  have hparts : ∃ behind, Path.join path name = path ++ behind := by
    rcases Path.join_of_isName path hname with ⟨hpath, hjoin⟩ | ⟨_, -, hjoin⟩ | ⟨-, hjoin⟩
    · exact ⟨name, by rw [hjoin, hpath]; simp⟩
    · exact ⟨name, hjoin⟩
    · exact ⟨"/" ++ name, by rw [hjoin, String.append_assoc]⟩
  obtain ⟨behind, hjoin⟩ := hparts
  rw [hjoin, checkPath_eq_ok_iff, String.toList_append, String.utf8ByteSize_append,
    List.mem_append, not_or] at h
  exact checkPath_eq_ok_iff.mpr ⟨h.1.1, by omega⟩

namespace Layout

variable {root : String} {base : Location} {t : FileTree} {k : Kind} {namespaceName : String}
  {key : ObjectKey} {text : String} {clock : FileTree → Timestamp}

/-- A new text in the file of an object. -/
theorem putText (h : Layout root base t) (hkept : Kept root key text)
    (hn : t.node? (namespaceAt base key.kind key.namespaceName) = some .directory) :
    Layout root base (t.put (place base key) (.file text)) := by
  refine h.put (place_ne_nil _ _) ?_ (.object hn hkept)
  rw [h.node?_place]
  cases textAt base t key <;> exact nofun

/-! ## Calls -/

/-- **Reading an object**. -/
theorem read_eq (h : Layout root base t) (hkey : Naming.checkKey key = .ok ()) :
    (∃ text, textAt base t key = some text
        ∧ read root key.kind key.namespaceName key.name t = decode key.kind text)
      ∨ ∃ e, textAt base t key = none
        ∧ read root key.kind key.namespaceName key.name t = .error e
        ∧ (Keepable root key → e = .notFound key) := by
  rcases h.read_cases hkey with ⟨text, htext, hread⟩ | ⟨e, hnone, hread, he⟩
  · refine .inl ⟨text, htext, ?_⟩
    rw [read, hread]
    rfl
  · refine .inr ⟨missing key e, hnone, ?_, fun hk => ?_⟩
    · rw [read, hread]
      rfl
    · rw [he hk]
      rfl

/-- **Getting an object** changes nothing. -/
theorem get_cases (h : Layout root base t) (key : ObjectKey) :
    ∃ result, (get root key.kind key.namespaceName key.name).Leaves t result t
      ∧ ((∃ text, Naming.checkKey key = .ok () ∧ textAt base t key = some text
          ∧ result = decode key.kind text)
        ∨ ∃ e, result = .error e ∧ (Naming.checkKey key = .ok () → textAt base t key = none
          ∧ (Keepable root key → e = .notFound key))) := by
  rw [get]
  cases hkey : Naming.checkKey key with
  | error e =>
    exact ⟨_, (Action.leaves_ofExcept rfl t).bind_error, .inr ⟨e, rfl, nofun⟩⟩
  | ok _ =>
    refine ⟨_, Action.leaves_checked (Action.leaves_ofExcept rfl t), ?_⟩
    rcases h.read_eq hkey with ⟨text, htext, hread⟩ | ⟨e, hnone, hread, he⟩
    · exact .inl ⟨text, rfl, htext, hread⟩
    · exact .inr ⟨e, hread, fun _ => ⟨hnone, he⟩⟩

/-- A tree that can keep a key can keep the directory of its namespace. -/
theorem checkPath_directory {key : ObjectKey} (hkey : Naming.checkKey key = .ok ())
    (h : Keepable root key) : checkPath (directory root key.kind key.namespaceName) = .ok () := by
  have hname := (isName_fileName (isName_of_isStorable (checkKey_eq_ok.mp hkey).2).1).1
  exact checkPath_of_join hname h.1

/-- **Writing a new object** into the directory of its namespace. -/
theorem writeNew_object (h : Layout root base t) {o : Object k}
    (hkey : Naming.checkKey o.key = .ok ())
    (hn : t.node? (namespaceAt base k o.namespaceName) = some .directory) {x : Nat}
    (hx : x < Text.wordBound) {created : Option Timestamp}
    (hc : ∀ t, created = some t → t.ReadsBack) :
    (textAt base t o.key = none ∧ Keepable root o.key
        ∧ ∃ t', (writeNew (path root o.key)
            (content (o.stamped (some (Text.decimal x)) created))).Leaves t (.ok ()) t'
          ∧ Layout root base t'
          ∧ ∀ key, textAt base t' key = if key = o.key then
              some (content (o.stamped (some (Text.decimal x)) created)) else textAt base t key)
      ∨ ∃ e, (writeNew (path root o.key)
          (content (o.stamped (some (Text.decimal x)) created))).Leaves t (.error e) t
        ∧ (Keepable root o.key →
          (∃ text, textAt base t o.key = some text) ∧ e = .alreadyExists) := by
  rcases h.writeNew_cases hkey (content (o.stamped (some (Text.decimal x)) created)) with
    ⟨hnone, hk, -, hwrite⟩ | ⟨e, hwrite, he⟩
  · exact .inl ⟨hnone, hk, _, Action.leaves_of_eq hwrite,
      h.putText ⟨hkey, hk, x, written_stamped o hx hc⟩ hn, fun key => textAt_put⟩
  · refine .inr ⟨e, Action.leaves_of_eq hwrite, fun hk => ?_⟩
    rcases he with ⟨htext, rfl⟩ | ⟨hnone, hnot⟩
    · exact ⟨htext, rfl⟩
    · exact absurd hn (hnot hk)

/-- A key is not free for `create`: it cannot be stored or kept, or there is a text. -/
theorem create_cases (h : Layout root base t) (hclock : ∀ t, (clock t).ReadsBack) (o : Object k) :
    (∃ t', Naming.checkKey o.key = .ok () ∧ textAt base t o.key = none ∧ Keepable root o.key
        ∧ (create root clock k o).Leaves t
          (.ok (o.stamped (some (Text.decimal 1)) (some (clock t)))) t'
        ∧ Layout root base t'
        ∧ ∀ key, textAt base t' key = if key = o.key then
            some (content (o.stamped (some (Text.decimal 1)) (some (clock t))))
          else textAt base t key)
      ∨ ∃ e t', (create root clock k o).Leaves t (.error e) t' ∧ Layout root base t'
        ∧ SameTexts base t t'
        ∧ (Naming.checkKey o.key = .ok () → Keepable root o.key →
          (∃ text, textAt base t o.key = some text) ∧ e = .alreadyExists o.key) := by
  rw [create]
  cases hkey : Naming.checkKey o.key with
  | error e =>
    exact .inr ⟨e, t, (Action.leaves_ofExcept rfl t).bind_error, h, fun _ => rfl, nofun⟩
  | ok _ =>
    obtain ⟨hnamespace, -⟩ := checkKey_eq_ok.mp hkey
    have hnamespace : Naming.isStorable o.namespaceName = true := hnamespace
    have hprepared := h.makeDirectories k hnamespace
    generalize hmake : FileTree.makeDirectories (directory root k o.namespaceName) t = r
      at hprepared
    obtain ⟨h', htexts, hdirectory, hpossible⟩ := hprepared
    have hmade : ((FileTree.makeDirectories (directory root k o.namespaceName)).mapError
        StoreError.file).Leaves t (r.result.mapError .file) r.state :=
      Action.Leaves.mapError ⟨congrArg _ hmake, congrArg _ hmake⟩
    cases hresult : r.result with
    | error e =>
      rw [hresult] at hmade hpossible
      refine .inr ⟨.file e, r.state, ?_, h', htexts, fun _ hk => ?_⟩
      · refine Action.leaves_checked ?_
        exact hmade.bind_error
      · have hcheck := checkPath_directory hkey hk
        cases hpossible hcheck hk.2.1
    | ok _ =>
      rw [hresult] at hmade
      have hc : ∀ now, some (clock t) = some now → now.ReadsBack := fun _ hnow =>
        Option.some.inj hnow ▸ hclock t
      rcases h'.writeNew_object (x := 1) hkey (hdirectory hresult) (by decide) hc with
        ⟨hnone, hk, t', hwrite, hlayout, htexts'⟩ | ⟨e, hwrite, he⟩
      · refine .inl ⟨t', rfl, (htexts o.key).symm.trans hnone, hk, ?_, hlayout, fun key => ?_⟩
        · refine Action.leaves_checked ?_
          refine Action.Leaves.bind hmade ?_
          refine Action.Leaves.bind hwrite.mapError ?_
          exact Action.Leaves.bind (Action.leaves_report _ _) (Action.leaves_done _ _)
        · rw [htexts' key, htexts key]
      · refine .inr ⟨taken o.key e, r.state, ?_, h', htexts, fun _ hk => ?_⟩
        · refine Action.leaves_checked ?_
          refine Action.Leaves.bind hmade ?_
          exact hwrite.mapError.bind_error
        · obtain ⟨htext, rfl⟩ := he hk
          rw [htexts o.key] at htext
          exact ⟨htext, rfl⟩

/-- **Updating an object** writes it over the one it replaces; otherwise it fails and changes
nothing. -/
theorem update_cases (h : Layout root base t) (o : Object k) :
    (∃ text, ∃ stored : Object k, textAt base t o.key = some text ∧ decode k text = .ok stored
        ∧ checkVersion stored o = .ok ()
        ∧ ∃ t', (update root k o).Leaves t (.ok (o.stamped
            (some (nextVersion stored.metadata.resourceVersion))
            stored.metadata.creationTimestamp)) t'
          ∧ Layout root base t'
          ∧ ∀ key, textAt base t' key = if key = o.key then
              some (content (o.stamped (some (nextVersion stored.metadata.resourceVersion))
                stored.metadata.creationTimestamp))
            else textAt base t key)
      ∨ ∃ e, (update root k o).Leaves t (.error e) t
        ∧ (Naming.checkKey o.key = .ok () →
          textAt base t o.key = none ∧ (Keepable root o.key → e = .notFound o.key)
            ∨ ∃ text, textAt base t o.key = some text ∧ (decode k text = .error e
              ∨ ∃ stored, decode k text = .ok stored ∧ checkVersion stored o = .error e)) := by
  rw [update]
  cases hkey : Naming.checkKey o.key with
  | error e => exact .inr ⟨e, (Action.leaves_ofExcept rfl t).bind_error, nofun⟩
  | ok _ =>
    rcases h.read_eq hkey with ⟨text, htext, hread⟩ | ⟨e, hnone, hread, he⟩
    · cases hdecode : decode k text with
      | error e =>
        refine .inr ⟨e, ?_, fun _ => .inr ⟨text, htext, .inl hdecode⟩⟩
        refine Action.leaves_checked ?_
        exact (Action.leaves_ofExcept (hread.trans hdecode) t).bind_error
      | ok stored =>
        have hstored := Action.leaves_ofExcept (hread.trans hdecode) t
        cases hversion : checkVersion stored o with
        | error e =>
          refine .inr ⟨e, ?_, fun _ => .inr ⟨text, htext, .inr ⟨stored, hdecode, hversion⟩⟩⟩
          refine Action.leaves_checked ?_
          refine Action.Leaves.bind hstored ?_
          exact (Action.leaves_ofExcept hversion t).bind_error
        | ok _ =>
          obtain ⟨hkept, -, hn⟩ := h.kept_of_textAt htext
          obtain ⟨x, hwritten⟩ := hkept.written
          obtain ⟨-, hc, hx, hbound⟩ := hwritten.of_decode hdecode
          have hnext := written_stamped o (lt_wordBound_of_mod (x + 1)) hc
          rw [← nextVersion_decimal hbound, ← hx] at hnext
          refine .inl ⟨text, stored, htext, hdecode, hversion, _, ?_,
            h.putText ⟨hkey, hkept.keepable, _, hnext⟩ hn, fun key => textAt_put⟩
          refine Action.leaves_checked ?_
          refine Action.Leaves.bind hstored ?_
          refine Action.Leaves.bind (Action.leaves_ofExcept hversion t) ?_
          refine Action.Leaves.bind (Action.leaves_of_eq (h.write_eq hkey htext _)).mapError ?_
          exact Action.Leaves.bind (Action.leaves_report _ _) (Action.leaves_done _ _)
    · refine .inr ⟨e, ?_, fun _ => .inl ⟨hnone, he⟩⟩
      refine Action.leaves_checked ?_
      exact (Action.leaves_ofExcept hread t).bind_error

/-- **Deleting an object** empties its place; if it was empty, the call fails and changes
nothing. -/
theorem delete_cases (h : Layout root base t) (key : ObjectKey) :
    ((∃ text, textAt base t key = some text)
        ∧ ∃ t', (delete root key.kind key.namespaceName key.name).Leaves t (.ok ()) t'
          ∧ Layout root base t'
          ∧ ∀ key', textAt base t' key' = if key' = key then none else textAt base t key')
      ∨ ∃ e, (delete root key.kind key.namespaceName key.name).Leaves t (.error e) t
        ∧ (Naming.checkKey key = .ok () → textAt base t key = none
          ∧ (Keepable root key → e = .notFound key)) := by
  rw [delete]
  cases hkey : Naming.checkKey key with
  | error e => exact .inr ⟨e, (Action.leaves_ofExcept rfl t).bind_error, nofun⟩
  | ok _ =>
    rcases h.erase_cases hkey with ⟨⟨text, htext⟩, herase⟩ | ⟨e, hnone, herase, he⟩
    · refine .inl ⟨⟨text, htext⟩, _, ?_, h.remove htext, fun key' => textAt_remove⟩
      refine Action.Leaves.bind (Action.leaves_ofExcept rfl t) ?_
      refine Action.Leaves.bind (Action.leaves_of_eq herase).mapError ?_
      exact Action.leaves_report _ _
    · refine .inr ⟨missing key e, ?_, fun _ => ⟨hnone, fun hk => ?_⟩⟩
      · refine Action.Leaves.bind (Action.leaves_ofExcept rfl t) ?_
        exact (Action.leaves_of_eq herase).mapError.bind_error
      · rw [he hk]
        rfl

end Layout

end FileStore

end PlanSync
