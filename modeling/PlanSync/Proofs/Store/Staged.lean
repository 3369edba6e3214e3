import PlanSync.Proofs.Store.FileListing

/-!
# Staged files

A store writes an object to a file with a name of its own and moves it into place when it
is complete. Who stops in between leaves the file behind, in the directory of the namespace
and with any text. Such files are *staged* (`FileStore.Staged`). Their names end in no
extension, so a listing passes them over, and no object has its file under such a name: a
tree is listed and read as if they were not there (`FileStore.Staged.listed_eq`,
`FileStore.Staged.read_eq`).
-/

namespace PlanSync.FileStore

open FileTree

variable {root : String} {base : Location} {t t' : FileTree} {k : Kind} {namespaceName : String}

/-! ## Names -/

/-- The name of a staged file. -/
def stagedName (tag : String) : String := ".tmp" ++ tag

/-- **A staged file is not taken for the file of an object.** -/
theorem isObjectFile_stagedName {tag : String} (h : '.' ∉ tag.toList) :
    isObjectFile (stagedName tag) = false := by
  rw [isObjectFile, Option.any_eq_false]
  intro rest hrest
  rw [Text.dropEnd?_eq_some_iff] at hrest
  have hchars : '.' :: 't' :: 'm' :: 'p' :: tag.toList
      = rest.toList ++ ['.', 'j', 's', 'o', 'n'] := by
    simpa [stagedName, extension] using congrArg String.toList hrest
  cases hr : rest.toList with
  | nil =>
    rw [hr] at hchars
    simp at hchars
  | cons c cs =>
    rw [hr, List.cons_append, List.cons.injEq] at hchars
    have hdot : '.' ∈ 't' :: 'm' :: 'p' :: tag.toList := by
      rw [hchars.2]
      exact List.mem_append_right _ List.mem_cons_self
    simp [h] at hdot

/-! ## Trees with staged files -/

/-- **Staged files beside what is in a tree**: any number of files with names of their own in
the directories of namespaces, with any texts. -/
structure Staged (root : String) (t t' : FileTree) : Prop where
  workingDirectory : t'.workingDirectory = t.workingDirectory
  beside : ∀ l, t'.node? l = t.node? l
    ∨ ∃ base k namespaceName tag text, t.Leads root base ∧ '.' ∉ tag.toList
      ∧ l = namespaceAt base k namespaceName ++ [stagedName tag] ∧ t'.node? l = some (.file text)

namespace Staged

theorem leads_unique {base' : Location} (h : t.Leads root base) (h' : t.Leads root base') :
    base' = base := Except.ok.inj (h'.1.symm.trans h.1)

/-- Nothing is staged. -/
theorem refl (root : String) (t : FileTree) : Staged root t t := ⟨rfl, fun _ => .inl rfl⟩

/-- One more file is staged. -/
theorem put (hs : Staged root t t') (hl : t.Leads root base) (k : Kind) (namespaceName : String)
    {tag : String} (htag : '.' ∉ tag.toList) (text : String) :
    Staged root t (t'.put (namespaceAt base k namespaceName ++ [stagedName tag]) (.file text)) := by
  refine ⟨hs.workingDirectory, fun l => ?_⟩
  rw [node?_put _ (List.append_ne_nil_of_right_ne_nil _ (List.cons_ne_nil _ _))]
  split
  · next hplace => exact .inr ⟨base, k, namespaceName, tag, text, hl, htag, hplace, rfl⟩
  · exact hs.beside l

/-- Elsewhere there is the same. -/
theorem node?_eq (hs : Staged root t t') (hl : t.Leads root base) {l : Location}
    (hne : ∀ k namespaceName tag, '.' ∉ tag.toList →
      l ≠ namespaceAt base k namespaceName ++ [stagedName tag]) : t'.node? l = t.node? l := by
  rcases hs.beside l with heq | ⟨base', k, namespaceName, tag, text, hl', htag, hplace, -⟩
  · exact heq
  · rw [leads_unique hl hl'] at hplace
    exact absurd hplace (hne k namespaceName tag htag)

theorem node?_kindAt (hs : Staged root t t') (hl : t.Leads root base) (k : Kind) :
    t'.node? (kindAt base k) = t.node? (kindAt base k) :=
  hs.node?_eq hl fun _ _ _ _ heq => by
    have := congrArg List.length heq
    simp [kindAt, namespaceAt] at this

theorem node?_namespaceAt (hs : Staged root t t') (hl : t.Leads root base) (k : Kind)
    (namespaceName : String) :
    t'.node? (namespaceAt base k namespaceName) = t.node? (namespaceAt base k namespaceName) :=
  hs.node?_eq hl fun _ _ _ _ heq => by
    have := congrArg List.length heq
    simp [namespaceAt] at this

/-- What could be the file of an object is not staged. -/
theorem node?_file (hs : Staged root t t') (hl : t.Leads root base) (k : Kind)
    (namespaceName : String) {file : String} (hfile : isObjectFile file = true) :
    t'.node? (namespaceAt base k namespaceName ++ [file])
      = t.node? (namespaceAt base k namespaceName ++ [file]) :=
  hs.node?_eq hl fun _ _ tag htag heq => by
    have hname : file = stagedName tag :=
      List.singleton_inj.mp (List.append_inj_right' heq rfl)
    rw [hname, isObjectFile_stagedName htag] at hfile
    cases hfile

/-- No directory is lost. -/
theorem keeps (hs : Staged root t t') (h : Layout root base t) : t.Keeps t' := by
  refine ⟨hs.workingDirectory, fun l hdirectory => ?_⟩
  rcases hs.beside l with heq | ⟨base', k, namespaceName, tag, text, hl', htag, rfl, -⟩
  · rw [heq, hdirectory]
  · rw [leads_unique h.leads hl'] at hdirectory
    obtain ⟨_, _, -, hfile, -⟩ := h.node?_file hdirectory
    cases hfile

/-- The way to a namespace is the same. -/
theorem locate_directory_eq (hs : Staged root t t') (h : Layout root base t)
    (hnamespace : Naming.isStorable namespaceName = true) :
    t'.locate (directory root k namespaceName) = t.locate (directory root k namespaceName) :=
  locate_directory_congr h.leads (h.leads.of_keeps (hs.keeps h)) hnamespace
    (hs.node?_kindAt h.leads k)

/-- The way to an object is the same. -/
theorem locate_path_eq (hs : Staged root t t') (h : Layout root base t) {key : ObjectKey}
    (hkey : Naming.checkKey key = .ok ()) :
    t'.locate (path root key) = t.locate (path root key) := by
  obtain ⟨hnamespace, hname⟩ := checkKey_eq_ok.mp hkey
  exact locate_file_congr h.leads (h.leads.of_keeps (hs.keeps h)) hnamespace
    (isName_fileName (isName_of_isStorable hname).1).1 (hs.node?_kindAt h.leads key.kind)
    (hs.node?_namespaceAt h.leads key.kind key.namespaceName)

/-! ## Reading and listing -/

/-- **An object is read as if nothing was staged.** -/
theorem read_eq (hs : Staged root t t') (h : Layout root base t) {key : ObjectKey}
    (hkey : Naming.checkKey key = .ok ()) : t'.read (path root key) = t.read (path root key) := by
  have hfile := isObjectFile_fileName (isName_of_isStorable (checkKey_eq_ok.mp hkey).2).1.1
  have hnode : t'.node? (place base key) = t.node? (place base key) := by
    rw [Layout.place_eq]
    exact hs.node?_file h.leads _ _ hfile
  rcases h.locate_cases hkey with ⟨hlocate, -⟩ | ⟨e, hlocate, -⟩
  · have hlocate' := (hs.locate_path_eq h hkey).trans hlocate
    rw [Layout.read_of_locate hlocate, Layout.read_of_locate hlocate', hnode]
  · have hlocate' := (hs.locate_path_eq h hkey).trans hlocate
    rw [FileTree.read, FileTree.read, hlocate, hlocate']
    rfl

/-- The names of objects' files are the same. -/
theorem namesIn_eq (hs : Staged root t t') (h : Layout root base t)
    (hnamespace : Naming.isStorable namespaceName = true) :
    (t'.namesIn (directory root k namespaceName)).map (List.filter isObjectFile)
      = (t.namesIn (directory root k namespaceName)).map (List.filter isObjectFile) := by
  have hlocate' := hs.locate_directory_eq (k := k) h hnamespace
  cases hlocate : t.locate (directory root k namespaceName) with
  | error e =>
    rw [namesIn, namesIn, hlocate', hlocate]
    rfl
  | ok l =>
    rw [hlocate] at hlocate'
    obtain rfl : l = namespaceAt base k namespaceName := by
      obtain ⟨_, hcheck, -⟩ := Answer.bind_eq_ok.mp hlocate
      have hto := hlocate.symm.trans (locate_directory h.leads hnamespace hcheck)
      rcases h.toNamespace_cases k hnamespace with ⟨hok, -⟩ | ⟨e, herror, -⟩
      · exact Except.ok.inj (hto.trans hok)
      · cases hto.trans herror
    rw [namesIn_of_locate hlocate', namesIn_of_locate hlocate,
      enter_congr (hs.node?_namespaceAt h.leads k namespaceName)]
    cases t.enter (namespaceAt base k namespaceName) with
    | error e => rfl
    | ok _ =>
      exact congrArg Except.ok (filter_found_congr fun file hfile =>
        hs.node?_file h.leads k namespaceName hfile)

/-- **A namespace is listed as if nothing was staged.** -/
theorem listed_eq (hs : Staged root t t') (h : Layout root base t) (selector : Selector)
    (hnamespace : Naming.isStorable namespaceName = true) :
    listed root k namespaceName selector t' = listed root k namespaceName selector t := by
  have hnames' := hs.namesIn_eq (k := k) h hnamespace
  rcases h.namesIn_cases k hnamespace with ⟨names, hnames, -, hmem⟩ | ⟨e, hnames, -, -⟩
  · rw [hnames] at hnames'
    obtain ⟨names', hok, hfilter⟩ := Answer.map_eq_ok.mp hnames'
    rw [listed_of_names selector hok, listed_of_names selector hnames, hfilter]
    refine congrArg (· >>= _) (readAll_congr fun file hf => ?_)
    obtain ⟨name, text, rfl, htext⟩ := (hmem file).mp (List.mem_filter.mp hf).1
    have hkey := (h.kept_of_textAt htext).1.storable
    show t'.read (path root ⟨k, namespaceName, name⟩) = t.read (path root ⟨k, namespaceName, name⟩)
    exact hs.read_eq h hkey
  · rw [hnames] at hnames'
    have hnames' : t'.namesIn (directory root k namespaceName) = .error e := by
      cases hr : t'.namesIn (directory root k namespaceName) with
      | error e' =>
        rw [hr] at hnames'
        exact congrArg Except.error (Except.error.inj hnames')
      | ok names =>
        rw [hr] at hnames'
        cases hnames'
    rw [listed_of_error selector hnames', listed_of_error selector hnames]

end Staged

end PlanSync.FileStore
