import PlanSync.Proofs.Store.FileListing
import PlanSync.Proofs.Store.Staleness

/-!
# Which names a store in files can keep

A store in files keeps each object in a file that has the name of the object and an
extension. Files have names of at most 255 bytes, so an object has one of at most 250
(`FileStore.maxStoredBytes`). Where paths have room for the files of a namespace
(`FileStore.Roomy`), nothing else about a name counts: an empty store takes an object if its
name is short enough (`FileStore.Vacant.takes`), and otherwise no store ever does
(`FileStore.refuses_long`).
-/

namespace PlanSync

namespace FileStore

open FileTree

variable {root : String} {base : Location} {clock : FileTree → Timestamp} {t : FileTree}
  {k : Kind} {namespaceName name : String} {key : ObjectKey} {o : Object k}

/-! ## Names -/

/-- The greatest length of the name of an object whose file can have its name, in bytes. -/
def maxStoredBytes : Nat := maxNameBytes - extension.utf8ByteSize

theorem utf8ByteSize_fileName (name : String) :
    (fileName name).utf8ByteSize = name.utf8ByteSize + extension.utf8ByteSize :=
  String.utf8ByteSize_append

/-- **The name of a file is short enough** exactly if that of the object is. -/
theorem fileName_le_iff :
    (fileName name).utf8ByteSize ≤ maxNameBytes ↔ name.utf8ByteSize ≤ maxStoredBytes := by
  have hextension : extension.utf8ByteSize ≤ maxNameBytes := by decide
  rw [utf8ByteSize_fileName, maxStoredBytes]
  omega

example : maxStoredBytes = 250 := rfl

/-! ## Paths -/

/-- **There is room for the files of a namespace**: the tree can keep its directory, and a path
can have three more names behind the root. -/
structure Roomy (root namespaceName : String) : Prop where
  storable : Naming.isStorable namespaceName = true
  size : namespaceName.utf8ByteSize ≤ maxNameBytes
  text : '\x00' ∉ namespaceName.toList
  rootText : '\x00' ∉ root.toList
  rootSize : root.utf8ByteSize + 3 * (maxNameBytes + 1) < maxPathBytes

namespace Roomy

theorem nul_not_mem_directory (h : Roomy root namespaceName) (k : Kind) :
    '\x00' ∉ (directory root k namespaceName).toList := by
  have hplural : '\x00' ∉ k.plural.toList := by cases k <;> decide
  exact Path.not_mem_join (by decide) (Path.not_mem_join (by decide) h.rootText hplural) h.text

theorem nul_not_mem_path (h : Roomy root key.namespaceName) (hname : '\x00' ∉ key.name.toList) :
    '\x00' ∉ (path root key).toList := by
  refine Path.not_mem_join (by decide) (h.nul_not_mem_directory key.kind) ?_
  rw [String.toList_append, List.mem_append, not_or]
  exact ⟨hname, by decide⟩

/-- Behind the directory of a namespace there is room for one more name. -/
theorem utf8ByteSize_directory_lt (h : Roomy root namespaceName) (k : Kind) :
    (directory root k namespaceName).utf8ByteSize + (maxNameBytes + 1) < maxPathBytes := by
  have hplural := (isName_plural k).2.2.2
  have hkind := Path.utf8ByteSize_join_le root k.plural
  have hdirectory := Path.utf8ByteSize_join_le (Path.join root k.plural) namespaceName
  have hroot := h.rootSize
  have hnamespace := h.size
  rw [directory]
  omega

theorem checkPath_directory (h : Roomy root namespaceName) (k : Kind) :
    checkPath (directory root k namespaceName) = .ok () := by
  have hsize := h.utf8ByteSize_directory_lt k
  exact checkPath_eq_ok_iff.mpr ⟨h.nul_not_mem_directory k, by omega⟩

/-- **A key can be kept** exactly if its name is short enough. -/
theorem keepable_iff (h : Roomy root key.namespaceName) (hname : '\x00' ∉ key.name.toList) :
    Keepable root key ↔ key.name.utf8ByteSize ≤ maxStoredBytes := by
  refine ⟨fun hk => fileName_le_iff.mp hk.2.2, fun hsize => ?_⟩
  have hfile := fileName_le_iff.mpr hsize
  refine ⟨checkPath_eq_ok_iff.mpr ⟨h.nul_not_mem_path hname, ?_⟩, h.size, hfile⟩
  have hdirectory := h.utf8ByteSize_directory_lt key.kind
  have hpath := Path.utf8ByteSize_join_le (directory root key.kind key.namespaceName)
    (fileName key.name)
  exact Nat.lt_of_le_of_lt hpath (by omega)

end Roomy

/-! ## Names that are short enough -/

/-- **What is alone in a store is listed alone**, if the selector accepts it. -/
theorem Layout.list_alone (h : Layout root base t) {text : String}
    (htexts : ∀ key, textAt base t key = if key = o.key then some text else none)
    (hread : decode k text = .ok o) (selector : Selector) :
    (list root k o.namespaceName selector).Leaves t
      (.ok (if selector.accepts o.labels then [o] else [])) t := by
  have htext : textAt base t o.key = some text := (htexts _).trans (if_pos rfl)
  -- no other text is there, so every object that is read is this one
  have honly {a : Object k} {text' : String} (htext' : textAt base t a.key = some text')
      (ha : decode k text' = .ok a) : a = o := by
    rw [htexts] at htext'
    split at htext'
    · cases htext'
      exact Except.ok.inj (ha.symm.trans hread)
    · cases htext'
  have hkept := (h.kept_of_textAt htext).1
  have hpath := Layout.checkPath_directory hkept.storable hkept.keepable
  obtain ⟨result, hleaves, hlisted, hsucceeds⟩ := h.list_cases k o.namespaceName selector
  obtain ⟨os, rfl⟩ := hsucceeds (checkKey_eq_ok.mp hkept.storable).1 hpath hkept.keepable.2.1
    fun name text' htext' => by
      rw [htexts] at htext'
      split at htext'
      · cases htext'
        exact ⟨o, hread⟩
      · cases htext'
  obtain ⟨hmem, hsorted⟩ := hlisted os rfl
  suffices hos : os = if selector.accepts o.labels then [o] else [] by rwa [← hos]
  split
  · next haccepts =>
    refine eq_of_sorted hsorted (List.pairwise_singleton _ _) fun a => ?_
    rw [hmem, List.mem_singleton]
    constructor
    · exact fun ⟨_, _, text', htext', ha⟩ => honly htext' ha
    · rintro rfl
      exact ⟨rfl, haccepts, text, htext, hread⟩
  · next hrejects =>
    refine List.eq_nil_iff_forall_not_mem.mpr fun a ha => hrejects ?_
    obtain ⟨-, haccepts, text', htext', hread'⟩ := (hmem a).mp ha
    rwa [honly htext' hread'] at haccepts

/-- **An empty store takes an object** under a key that it can keep, and if a text can keep the
object exactly, it is all that is listed then. -/
theorem Vacant.takes (hvacant : Vacant root t) (hclock : ∀ t, (clock t).ReadsBack)
    (hkey : Naming.checkKey o.key = .ok ()) (hkeepable : Keepable root o.key) :
    (store root clock).Gives t [] (.create k o)
        [⟨k, o.stamped (some (Text.decimal 1)) (some (clock t))⟩]
      ∧ (o.Textual → ∀ selector, (store root clock).Gives t [.create k o]
          (.list k o.namespaceName selector)
          (if selector.accepts o.labels then
            [⟨k, o.stamped (some (Text.decimal 1)) (some (clock t))⟩] else [])) := by
  refine ⟨hvacant.gives_create hclock hkey hkeepable, fun htextual selector => ?_⟩
  obtain ⟨base, hlayout, hnone⟩ := hvacant.exists_layout
  rcases hlayout.create_cases hclock o with
    ⟨t', -, -, -, hcreate, hlayout', htexts⟩ | ⟨e, t', -, -, -, htaken⟩
  · have hread := decode_content_stamped htextual (some (Text.decimal 1))
      fun _ hnow => Option.some.inj hnow ▸ hclock t
    have hlist : (list root k o.namespaceName selector).Leaves t' _ t' :=
      hlayout'.list_alone (fun key => by rw [htexts, hnone]; rfl) hread selector
    have hstate : (store root clock).after t [.create k o] = t' :=
      (hcreate.map fun o => [(⟨k, o⟩ : Copy)]).2
    rw [Store.Gives, hstate]
    refine (hlist.map fun os => os.map (⟨k, ·⟩ : Object k → Copy)).1.trans ?_
    show Except.map _ (.ok (if selector.accepts o.labels then _ else _)) = _
    split <;> rfl
  · obtain ⟨⟨text, htext⟩, -⟩ := htaken hkey hkeepable
    cases (hnone o.key).symm.trans htext

/-! ## Names that are too long -/

namespace Layout

/-- **The path of a name that is too long leads nowhere**, though its directory is there. -/
theorem locate_long (h : Layout root base t) (hroom : Roomy root key.namespaceName)
    (hkey : Naming.checkKey key = .ok ()) (hname : '\x00' ∉ key.name.toList)
    (hlong : maxStoredBytes < key.name.utf8ByteSize)
    (hn : t.node? (namespaceAt base key.kind key.namespaceName) = some .directory) :
    t.locate (path root key) = .error .nameTooLong := by
  have hnul := hroom.nul_not_mem_path hname
  cases hpath : checkPath (path root key) with
  | error e =>
    obtain rfl := eq_nameTooLong_of_checkPath hnul hpath
    rw [locate, hpath]
    rfl
  | ok _ =>
    obtain ⟨hnamespace, hstorable⟩ := checkKey_eq_ok.mp hkey
    obtain ⟨hfile, hdot, hup⟩ := isName_fileName (isName_of_isStorable hstorable).1
    have hsize : maxNameBytes < (fileName key.name).utf8ByteSize :=
      Nat.not_le.mp fun hle => Nat.not_lt.mpr (fileName_le_iff.mp hle) hlong
    have hto : (t.enter (kindAt base key.kind) >>= fun _ =>
        step key.namespaceName (kindAt base key.kind))
          = .ok (namespaceAt base key.kind key.namespaceName) := by
      rcases h.toNamespace_cases key.kind hnamespace with ⟨hto, -⟩ | ⟨e, -, hnot, -⟩
      · exact hto
      · exact absurd hn hnot
    rw [locate_path h.leads hkey hpath, hto]
    show t.follow [fileName key.name] _ = _
    rw [follow_singleton, enter_eq_ok.mpr hn]
    show step (fileName key.name) _ = _
    rw [step_of_isName hfile hdot hup, if_pos hsize]

/-- **An object whose name is too long is not created**, whatever the store holds. -/
theorem create_long (h : Layout root base t) (hroom : Roomy root o.namespaceName)
    (hkey : Naming.checkKey o.key = .ok ()) (hname : '\x00' ∉ o.name.toList)
    (hlong : maxStoredBytes < o.name.utf8ByteSize) :
    (create root clock k o).Leaves t (.error (.file .nameTooLong))
      (FileTree.makeDirectories (directory root k o.namespaceName) t).state := by
  obtain ⟨h', -, hdirectory, hpossible⟩ := h.makeDirectories k hroom.storable
  have hmade := hpossible (hroom.checkPath_directory k) hroom.size
  have hlocate : FileTree.locate _ (path root o.key) = .error .nameTooLong :=
    h'.locate_long hroom hkey hname hlong (hdirectory hmade)
  have hleaves : (FileTree.makeDirectories (directory root k o.namespaceName)).Leaves t (.ok ())
      (FileTree.makeDirectories (directory root k o.namespaceName) t).state := ⟨hmade, rfl⟩
  rw [create, hkey]
  refine Action.leaves_checked ?_
  refine Action.Leaves.bind hleaves.mapError ?_
  have hwrite (text : String) : (writeNew (path root o.key) text).Leaves
      (FileTree.makeDirectories (directory root k o.namespaceName) t).state
      (.error .nameTooLong) _ := Action.leaves_of_eq (by rw [writeNew, hlocate]; rfl)
  exact (hwrite _).mapError.bind_error

end Layout

/-- **No store takes an object whose name is too long**, whatever it is asked before. -/
theorem refuses_long (hvacant : Vacant root t) (hclock : ∀ t, (clock t).ReadsBack)
    (hroom : Roomy root o.namespaceName) (hkey : Naming.checkKey o.key = .ok ())
    (hname : '\x00' ∉ o.name.toList) (hlong : maxStoredBytes < o.name.utf8ByteSize)
    (before : List Request) :
    ((Request.create k o).issue (store root clock) ((store root clock).after t before)).result
      = .error (.file .nameTooLong) := by
  obtain ⟨base, hlayout, -⟩ := hvacant.exists_layout
  have hcreate : (create root clock k o).Leaves _ _ _ :=
    (layout_after hclock hlayout before).create_long hroom hkey hname hlong
  exact (hcreate.map fun o => [(⟨k, o⟩ : Copy)]).1

end FileStore

end PlanSync
