import Mathlib.Data.List.Nodup
import PlanSync.Proofs.Store.Files

/-!
# Listing a store in files

A listing goes through the files of a namespace in whatever order the tree gives them, and
sorts what it has read. As every file is named for the object in it
(`FileStore.Layout.readFrom_iff`), no two objects have one name, and so the order is strict
and what is listed is known by its members (`FileStore.Listed`).

A namespace without a directory has no objects. All other errors stand in the way of a
listing, also those about objects that the selector does not ask for.
-/

namespace PlanSync.FileStore

open FileTree

variable {root : String} {base : Location} {t t' : FileTree} {k : Kind} {namespaceName : String}

/-! ## Files one after the other -/

/-- **An object is read from a file** of a directory. -/
def ReadFrom (t : FileTree) (directory file : String) (o : Object k) : Prop :=
  ∃ text, t.read (Path.join directory file) = .ok text ∧ decode k text = .ok o

theorem mem_readAll {directory : String} {files : List String} {os : List (Object k)}
    (h : readAll k directory t files = .ok os) (o : Object k) :
    o ∈ os ↔ ∃ file ∈ files, ReadFrom t directory file o := by
  induction files generalizing os with
  | nil =>
    cases h
    simp
  | cons file files ih =>
    obtain ⟨text, htext, h⟩ := Answer.bind_eq_ok.mp h
    obtain ⟨o', ho', h⟩ := Answer.bind_eq_ok.mp h
    obtain ⟨os', hos, h⟩ := Answer.bind_eq_ok.mp h
    cases h
    have hhead : ReadFrom t directory file o ↔ o = o' := by
      rw [Answer.mapError_eq_ok] at htext
      constructor
      · rintro ⟨text', htext', ho⟩
        obtain rfl := Except.ok.inj (htext.symm.trans htext')
        exact Except.ok.inj (ho.symm.trans ho')
      · rintro rfl
        exact ⟨text, htext, ho'⟩
    rw [List.mem_cons, ih hos]
    simp only [List.mem_cons, exists_eq_or_imp, hhead]

/-- Objects come in the order of the files they are read from. -/
theorem files_readAll {directory : String} {files : List String} {os : List (Object k)}
    (h : readAll k directory t files = .ok os)
    (hfile : ∀ file ∈ files, ∀ o : Object k, ReadFrom t directory file o → file = fileName o.name) :
    files = (os.map Object.name).map fileName := by
  induction files generalizing os with
  | nil =>
    cases h
    rfl
  | cons file files ih =>
    obtain ⟨text, htext, h⟩ := Answer.bind_eq_ok.mp h
    obtain ⟨o, ho, h⟩ := Answer.bind_eq_ok.mp h
    obtain ⟨os', hos, h⟩ := Answer.bind_eq_ok.mp h
    cases h
    rw [List.forall_mem_cons] at hfile
    rw [List.map_cons, List.map_cons, ← ih hos hfile.2,
      ← hfile.1 o ⟨text, Answer.mapError_eq_ok.mp htext, ho⟩]

/-- Files can be read one after the other if each can. -/
theorem exists_readAll {directory : String} {files : List String}
    (h : ∀ file ∈ files, ∃ o : Object k, ReadFrom t directory file o) :
    ∃ os, readAll k directory t files = .ok os := by
  induction files with
  | nil => exact ⟨[], rfl⟩
  | cons file files ih =>
    rw [List.forall_mem_cons] at h
    obtain ⟨⟨o, text, htext, ho⟩, h⟩ := h
    obtain ⟨os, hos⟩ := ih h
    exact ⟨o :: os, Answer.bind_eq_ok.mpr ⟨text, Answer.mapError_eq_ok.mpr htext,
      Answer.bind_eq_ok.mpr ⟨o, ho, Answer.bind_eq_ok.mpr ⟨os, hos, rfl⟩⟩⟩⟩

/-- Files in which there is the same are read alike. -/
theorem readAll_congr {directory : String} {files : List String}
    (h : ∀ file ∈ files, t'.read (Path.join directory file) = t.read (Path.join directory file)) :
    readAll k directory t' files = readAll k directory t files := by
  induction files with
  | nil => rfl
  | cons file files ih =>
    rw [List.forall_mem_cons] at h
    rw [readAll, readAll, h.1, ih h.2]

theorem isObjectFile_fileName {name : String} (h : name ≠ "") :
    isObjectFile (fileName name) = true := by
  have hrest : Text.dropEnd? extension (fileName name) = some name :=
    Text.dropEnd?_eq_some_iff.mpr rfl
  rw [isObjectFile, hrest, Option.any_some]
  exact decide_eq_true h

/-! ## The files of a namespace -/

/-- The name that is found at a location, as `FileTree.namesIn` looks for it. -/
def found (l m : Location) : Option String :=
  match l.isPrefixOf? m with
  | some [name] => some name
  | _ => none

theorem found_iff {l m : Location} {name : String} : found l m = some name ↔ m = l ++ [name] := by
  refine Iff.trans ?_ (List.isPrefixOf?_eq_some_iff_append_eq.trans eq_comm)
  rw [found]
  split
  · next name' hname =>
    rw [hname]
    simp
  · next hother => exact ⟨(fun h => by cases h), fun hname => absurd hname (hother name)⟩

theorem namesIn_of_locate {directory : String} {l : Location}
    (hlocate : t.locate directory = .ok l) :
    t.namesIn directory = t.enter l >>= fun _ => .ok (t.nodes.keys.filterMap (found l)) := by
  rw [namesIn, hlocate]
  rfl

theorem filter_filterMap_eq {α β : Type} (p : β → Bool) (f : α → Option β) (xs : List α) :
    (xs.filterMap f).filter p = (xs.filter fun x => (f x).any p).filterMap f := by
  rw [List.filter_filterMap, List.filterMap_filter]
  congr 1
  funext x
  cases hx : f x <;> simp [Option.filter]

/-- The names that are found in a directory depend on what is directly in it only. -/
theorem filter_found_congr {l : Location} {p : String → Bool}
    (h : ∀ file, p file = true → t'.node? (l ++ [file]) = t.node? (l ++ [file])) :
    (t'.nodes.keys.filterMap (found l)).filter p
      = (t.nodes.keys.filterMap (found l)).filter p := by
  rw [filter_filterMap_eq, filter_filterMap_eq]
  -- only keys with a name that is looked for count
  refine congrArg (List.filterMap _) (SortedMap.keys_filter_eq fun m hm => ?_)
  obtain ⟨file, hfound, hfile⟩ := (Option.any_eq_true p _).mp hm
  obtain rfl := found_iff.mp hfound
  have hnode := h file hfile
  rwa [node?, node?, if_neg (by simp), if_neg (by simp)] at hnode

theorem mem_namesIn {path : String} {l : Location} {names : List String}
    (hlocate : t.locate path = .ok l) (h : t.namesIn path = .ok names) :
    names.Nodup ∧ ∀ name, name ∈ names ↔ ∃ n, t.node? (l ++ [name]) = some n := by
  obtain ⟨l', hl', h⟩ := Answer.bind_eq_ok.mp h
  obtain rfl := Except.ok.inj (hlocate.symm.trans hl')
  obtain ⟨_, -, h⟩ := Answer.bind_eq_ok.mp h
  cases h
  refine ⟨t.nodes.nodup_keys.filterMap fun m m' name hm hm' => ?_, fun name => ?_⟩
  · exact (found_iff.mp hm).trans (found_iff.mp hm').symm
  · have hnode : t.node? (l ++ [name]) = t.nodes.get? (l ++ [name]) := by simp [node?]
    rw [List.mem_filterMap, hnode, ← SortedMap.mem_keys_iff]
    constructor
    · rintro ⟨m, hm, heq⟩
      rwa [← found_iff.mp heq]
    · exact fun hm => ⟨_, hm, found_iff.mpr rfl⟩

namespace Layout

/-- Without a directory that can be reached there are no texts. -/
theorem textAt_eq_none (h : Layout root base t)
    (hnot : ¬ (checkPath (directory root k namespaceName) = .ok ()
      ∧ t.node? (namespaceAt base k namespaceName) = some .directory)) (name : String) :
    textAt base t ⟨k, namespaceName, name⟩ = none := by
  refine Option.eq_none_iff_forall_ne_some.mpr fun text htext => hnot ?_
  obtain ⟨hkept, -, hn⟩ := h.kept_of_textAt htext
  have hcheck := checkPath_directory hkept.storable hkept.keepable
  exact ⟨hcheck, hn⟩

/-- In a directory there is one file for each text. -/
theorem mem_namesIn (h : Layout root base t) {names : List String}
    (hlocate : t.locate (directory root k namespaceName) = .ok (namespaceAt base k namespaceName))
    (hnames : t.namesIn (directory root k namespaceName) = .ok names) :
    names.Nodup ∧ ∀ file, file ∈ names ↔ ∃ name text, file = fileName name
      ∧ textAt base t ⟨k, namespaceName, name⟩ = some text := by
  obtain ⟨hnodup, hmem⟩ := FileStore.mem_namesIn hlocate hnames
  refine ⟨hnodup, fun file => (hmem file).trans ⟨?_, ?_⟩⟩
  · rintro ⟨n, hn⟩
    obtain ⟨name, text, hfile, rfl, -, -⟩ := h.node?_file hn
    subst hfile
    refine ⟨name, text, rfl, ?_⟩
    rw [textAt, place_eq, hn]
  · rintro ⟨name, text, rfl, htext⟩
    have hplace := (h.kept_of_textAt htext).2.1
    rw [place_eq] at hplace
    exact ⟨_, hplace⟩

/-- **The files of a namespace**: one for each text. If there is no directory, there are no
texts. -/
theorem namesIn_cases (h : Layout root base t) (k : Kind)
    (hnamespace : Naming.isStorable namespaceName = true) :
    (∃ names, t.namesIn (directory root k namespaceName) = .ok names ∧ names.Nodup
        ∧ ∀ file, file ∈ names ↔ ∃ name text, file = fileName name
          ∧ textAt base t ⟨k, namespaceName, name⟩ = some text)
      ∨ ∃ e, t.namesIn (directory root k namespaceName) = .error e
        ∧ (∀ name, textAt base t ⟨k, namespaceName, name⟩ = none)
        ∧ (checkPath (directory root k namespaceName) = .ok () →
          namespaceName.utf8ByteSize ≤ maxNameBytes → e = .notFound) := by
  cases hcheck : checkPath (directory root k namespaceName) with
  | error e =>
    refine .inr ⟨e, ?_, h.textAt_eq_none fun hok => ?_, nofun⟩
    · rw [namesIn, locate, hcheck]
      rfl
    · cases hcheck.symm.trans hok.1
  | ok _ =>
    have hlocate := locate_directory h.leads hnamespace hcheck
    rcases h.toNamespace_cases k hnamespace with ⟨hto, -⟩ | ⟨e, hto, hnot, he⟩
    · rw [hto] at hlocate
      obtain ⟨names, hnames⟩ : ∃ names, t.namesIn (directory root k namespaceName)
          = t.enter (namespaceAt base k namespaceName) >>= fun _ => .ok names :=
        ⟨_, by rw [namesIn, hlocate]; rfl⟩
      cases hn : t.node? (namespaceAt base k namespaceName) with
      | none =>
        refine .inr ⟨.notFound, ?_, h.textAt_eq_none fun hok => ?_, fun _ _ => rfl⟩
        · rw [hnames, enter, hn]
          rfl
        · cases hn.symm.trans hok.2
      | some n =>
        obtain rfl := (h.node?_namespaceAt hn).1
        rw [enter_eq_ok.mpr hn] at hnames
        exact .inl ⟨_, hnames, h.mem_namesIn hlocate hnames⟩
    · rw [hto] at hlocate
      refine .inr ⟨e, ?_, h.textAt_eq_none fun hok => hnot hok.2, fun _ => he⟩
      rw [namesIn, hlocate]
      rfl

/-- **What is read from a file of a namespace** is what its text says. -/
theorem readFrom_iff (h : Layout root base t) {name text : String} {o : Object k}
    (htext : textAt base t ⟨k, namespaceName, name⟩ = some text) :
    ReadFrom t (directory root k namespaceName) (fileName name) o
      ↔ o.key = ⟨k, namespaceName, name⟩ ∧ decode k text = .ok o := by
  obtain ⟨hkept, -, -⟩ := h.kept_of_textAt htext
  obtain ⟨x, hwritten⟩ := hkept.written
  have hread : t.read (path root ⟨k, namespaceName, name⟩) = .ok text := by
    rcases h.read_cases hkept.storable with ⟨text', htext', hread⟩ | ⟨e, hnone, -, -⟩
    · rwa [Option.some.inj (htext.symm.trans htext')]
    · cases hnone.symm.trans htext
  constructor
  · rintro ⟨text', hread', ho⟩
    obtain rfl := Except.ok.inj (hread.symm.trans hread')
    exact ⟨(hwritten.of_decode ho).1, ho⟩
  · exact fun ho => ⟨text, hread, ho.2⟩

end Layout

/-! ## Listing -/

/-- **What a listing gives**: the objects that are read from the texts of a namespace and
accepted, in strict order of their names. -/
structure Listed (base : Location) (t : FileTree) (k : Kind) (namespaceName : String)
    (selector : Selector) (os : List (Object k)) : Prop where
  mem : ∀ o, o ∈ os ↔ o.namespaceName = namespaceName ∧ selector.accepts o.labels = true
    ∧ ∃ text, textAt base t o.key = some text ∧ decode k text = .ok o
  sorted : (os.map Object.name).Pairwise (· < ·)

theorem listed_nil {selector : Selector}
    (h : ∀ name, textAt base t ⟨k, namespaceName, name⟩ = none) :
    Listed base t k namespaceName selector [] where
  mem o := by
    refine ⟨nofun, ?_⟩
    rintro ⟨rfl, -, text, htext, -⟩
    cases (h o.name).symm.trans htext
  sorted := .nil

/-- Objects of different names are in strict order once they are sorted. -/
theorem pairwise_mergeSort_name {os : List (Object k)} (h : (os.map Object.name).Nodup) :
    ((os.mergeSort fun a b => a.name ≤ b.name).map Object.name).Pairwise (· < ·) := by
  have hle := pairwise_mergeSort_by Object.name os
  have hne : ((os.mergeSort fun a b => a.name ≤ b.name).map Object.name).Nodup :=
    ((List.mergeSort_perm _ _).map _).nodup_iff.mpr h
  rw [List.Nodup, List.pairwise_map] at hne
  exact List.pairwise_map.mpr ((hle.and hne).imp fun hab =>
    Std.lt_of_le_of_ne hab.1 hab.2)

/-- Strict order is without repeats. -/
theorem nodup_of_sorted {os : List (Object k)} (h : (os.map Object.name).Pairwise (· < ·)) :
    (os.map Object.name).Nodup :=
  h.imp fun {a b} hlt heq => by
    rw [heq] at hlt
    exact Std.lt_irrefl hlt

/-- Objects in strict order of their names are known by what they are. -/
theorem eq_of_sorted {os os' : List (Object k)} (h : (os.map Object.name).Pairwise (· < ·))
    (h' : (os'.map Object.name).Pairwise (· < ·)) (hmem : ∀ o, o ∈ os ↔ o ∈ os') : os = os' := by
  have hperm : os.Perm os' :=
    (List.perm_ext_iff_of_nodup (nodup_of_sorted h).of_map (nodup_of_sorted h').of_map).mpr hmem
  rw [List.pairwise_map] at h h'
  refine List.Perm.eq_of_pairwise (fun a b _ _ hab hba => ?_) h h' hperm
  exact absurd (Std.lt_trans hab hba) Std.lt_irrefl

/-- Of objects in strict order of their names one only has the name of a given one. -/
theorem filter_name_eq {os : List (Object k)} {o : Object k} (ho : o ∈ os)
    (h : (os.map Object.name).Pairwise (· < ·)) : os.filter (fun a => a.name = o.name) = [o] := by
  refine eq_of_sorted (h.sublist (List.filter_sublist.map _)) (List.pairwise_singleton _ _)
    fun a => ?_
  rw [List.mem_filter, List.mem_singleton, decide_eq_true_eq]
  constructor
  · exact fun ⟨ha, hname⟩ => List.inj_on_of_nodup_map (nodup_of_sorted h) ha ho hname
  · rintro rfl
    exact ⟨ho, rfl⟩

/-- **Files that are read, filtered and sorted** are a listing. -/
theorem Layout.listed_of_readAll (h : Layout root base t) {names : List String}
    {selector : Selector} {os : List (Object k)} (hnodup : names.Nodup)
    (hnames : ∀ file, file ∈ names ↔ ∃ name text, file = fileName name
      ∧ textAt base t ⟨k, namespaceName, name⟩ = some text)
    (hos : readAll k (directory root k namespaceName) t (names.filter isObjectFile) = .ok os) :
    Listed base t k namespaceName selector
      ((os.filter fun o => selector.accepts o.labels).mergeSort fun a b => a.name ≤ b.name) := by
  have hfile {file : String} (hf : file ∈ names.filter isObjectFile) {o : Object k}
      (ho : ReadFrom t (directory root k namespaceName) file o) :
      file = fileName o.name ∧ o.namespaceName = namespaceName
        ∧ ∃ text, textAt base t o.key = some text ∧ decode k text = .ok o := by
    obtain ⟨name, text, rfl, htext⟩ := (hnames file).mp (List.mem_filter.mp hf).1
    obtain ⟨hkey, ho⟩ := (h.readFrom_iff htext).mp ho
    have hname : o.name = name := congrArg ObjectKey.name hkey
    exact ⟨congrArg fileName hname.symm, congrArg ObjectKey.namespaceName hkey, text,
      hkey ▸ htext, ho⟩
  have hdistinct : (os.map Object.name).Nodup := by
    refine List.Nodup.of_map fileName ?_
    rw [← files_readAll hos fun file hf o ho => (hfile hf ho).1]
    exact hnodup.filter _
  constructor
  · intro o
    rw [List.mem_mergeSort, List.mem_filter, mem_readAll hos]
    constructor
    · rintro ⟨⟨file, hf, ho⟩, ha⟩
      exact ⟨(hfile hf ho).2.1, ha, (hfile hf ho).2.2⟩
    · rintro ⟨rfl, ha, text, htext, ho⟩
      refine ⟨⟨fileName o.name, List.mem_filter.mpr ⟨?_, ?_⟩, ?_⟩, ha⟩
      · exact (hnames _).mpr ⟨o.name, text, rfl, htext⟩
      · have hkey := (h.kept_of_textAt htext).1.storable
        exact isObjectFile_fileName (isName_of_isStorable (checkKey_eq_ok.mp hkey).2).1.1
      · exact (h.readFrom_iff htext).mpr ⟨rfl, ho⟩
  · exact pairwise_mergeSort_name (hdistinct.sublist (List.filter_sublist.map _))

theorem listed_of_names {names : List String} (selector : Selector)
    (h : t.namesIn (directory root k namespaceName) = .ok names) :
    listed root k namespaceName selector t
      = readAll k (directory root k namespaceName) t (names.filter isObjectFile) >>= fun os =>
        .ok ((os.filter fun o => selector.accepts o.labels).mergeSort
          fun a b => a.name ≤ b.name) := by
  rw [listed]
  simp only [h]
  rfl

theorem listed_of_error {e : FileError} (selector : Selector)
    (h : t.namesIn (directory root k namespaceName) = .error e) :
    listed root k namespaceName selector t
      = if e = .notFound then .ok [] else .error (.file e) := by
  rw [listed]
  simp only [h]
  cases e <;> rfl

/-- The files of a namespace can be read if the texts can be. -/
theorem Layout.exists_readAll (h : Layout root base t) {names : List String}
    (hnames : ∀ file, file ∈ names ↔ ∃ name text, file = fileName name
      ∧ textAt base t ⟨k, namespaceName, name⟩ = some text)
    (hread : ∀ name text, textAt base t ⟨k, namespaceName, name⟩ = some text →
      ∃ o : Object k, decode k text = .ok o) :
    ∃ os, readAll k (directory root k namespaceName) t (names.filter isObjectFile) = .ok os := by
  refine FileStore.exists_readAll fun file hf => ?_
  obtain ⟨name, text, rfl, htext⟩ := (hnames file).mp (List.mem_filter.mp hf).1
  obtain ⟨o, ho⟩ := hread name text htext
  obtain ⟨x, hwritten⟩ := (h.kept_of_textAt htext).1.written
  exact ⟨o, (h.readFrom_iff htext).mpr ⟨(hwritten.of_decode ho).1, ho⟩⟩

/-- **Listing** changes nothing, and succeeds if the tree can keep the namespace and all its
texts can be read. -/
theorem Layout.list_cases (h : Layout root base t) (k : Kind) (namespaceName : String)
    (selector : Selector) :
    ∃ result, (list root k namespaceName selector).Leaves t result t
      ∧ (∀ os, result = .ok os → Listed base t k namespaceName selector os)
      ∧ (Naming.isStorable namespaceName = true →
        checkPath (directory root k namespaceName) = .ok () →
        namespaceName.utf8ByteSize ≤ maxNameBytes →
        (∀ name text, textAt base t ⟨k, namespaceName, name⟩ = some text →
          ∃ o : Object k, decode k text = .ok o) → ∃ os, result = .ok os) := by
  rw [list]
  cases hcheck : Naming.checkPart k "namespace" namespaceName with
  | error e =>
    refine ⟨_, (Action.leaves_ofExcept rfl t).bind_error, nofun, fun hnamespace => ?_⟩
    cases hcheck.symm.trans (checkPart_eq_ok.mpr hnamespace)
  | ok _ =>
    refine ⟨_, Action.leaves_checked (Action.leaves_ofExcept rfl t), ?_⟩
    have hnamespace := checkPart_eq_ok.mp hcheck
    rcases h.namesIn_cases k hnamespace with ⟨names, hnames, hnodup, hmem⟩ | ⟨e, hnames, hnone, he⟩
    · rw [listed_of_names selector hnames]
      refine ⟨fun os hos => ?_, fun _ _ _ hread => ?_⟩
      · obtain ⟨os', hos', hos⟩ := Answer.bind_eq_ok.mp hos
        cases hos
        exact h.listed_of_readAll hnodup hmem hos'
      · obtain ⟨os, hos⟩ := h.exists_readAll hmem hread
        exact ⟨_, Answer.bind_eq_ok.mpr ⟨os, hos, rfl⟩⟩
    · rw [listed_of_error selector hnames]
      refine ⟨fun os hos => ?_, fun _ hpath hsize _ => ⟨[], if_pos (he hpath hsize)⟩⟩
      split at hos
      · cases hos
        exact listed_nil hnone
      · cases hos

end PlanSync.FileStore
