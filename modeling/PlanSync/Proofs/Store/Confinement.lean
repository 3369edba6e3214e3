import PlanSync.Proofs.Action
import PlanSync.Proofs.Store.FileListing
import PlanSync.Proofs.Store.Requests

/-!
# What a call to a store in files touches

Names come from outside, and they are joined to paths. A call stays below the root of the
store nevertheless: whatever the names are, either they are refused before anything is
touched, or the call stays *near* the namespace it is about (`FileStore.Near`), at the
directory of the kind, the directory of the namespace and the files directly in it.

That a call changes nothing elsewhere is a statement about one tree
(`FileStore.Touched`). That it does not even look elsewhere is one about two: trees that
are the same near a namespace, and differ in any way elsewhere, answer alike and stay the
same there (`FileStore.SameNear`). Both are kept when actions follow one another, so they
are shown for single operations on files only (`FileStore.Confined`).

The names in a directory have to be names of files for this, since a listing joins them to
paths as well (`FileTree.Named`).
-/

namespace PlanSync

namespace Request

/-- The kind of the objects that a request is about. -/
def kind : Request → Kind
  | get key | delete key => key.kind
  | list k _ _ | create k _ | update k _ => k

/-- The namespace that a request is about. -/
def namespaceName : Request → String
  | get key | delete key => key.namespaceName
  | list _ namespaceName _ => namespaceName
  | create _ o | update _ o => o.namespaceName

/-- What is asked of the names in a request. -/
def check : Request → Except StoreError Unit
  | get key | delete key => Naming.checkKey key
  | list k namespaceName _ => Naming.checkPart k "namespace" namespaceName
  | create _ o | update _ o => Naming.checkKey o.key

end Request

namespace FileStore

open FileTree

/-! ## Places -/

/-- **Near a namespace**: at its directory or that of its kind, or directly in the former. -/
inductive Near (base : Location) (k : Kind) (namespaceName : String) : Location → Prop
  | kind : Near base k namespaceName (kindAt base k)
  | directory : Near base k namespaceName (namespaceAt base k namespaceName)
  | file {name : String} (hname : Path.IsEntry name) :
    Near base k namespaceName (namespaceAt base k namespaceName ++ [name])

/-- **A site of a store**: a tree in which the root of the store leads to a directory. -/
structure Site (root : String) (base : Location) (t : FileTree) : Prop where
  leads : t.Leads root base
  named : t.Named

/-- **What is touched is near**: a tree after something was done there. -/
structure Touched (root : String) (base : Location) (k : Kind) (namespaceName : String)
    (t t' : FileTree) : Prop where
  site : Site root base t'
  workingDirectory : t'.workingDirectory = t.workingDirectory
  elsewhere : ∀ l, ¬ Near base k namespaceName l → t'.node? l = t.node? l

/-- **Two trees that are the same near a namespace.** -/
structure SameNear (root : String) (base : Location) (k : Kind) (namespaceName : String)
    (t t' : FileTree) : Prop where
  site : Site root base t
  site' : Site root base t'
  near : ∀ l, Near base k namespaceName l → t'.node? l = t.node? l

variable {root : String} {base l : Location} {k : Kind} {namespaceName : String}
  {t t' t'' : FileTree}

theorem isEntry_plural (k : Kind) : Path.IsEntry k.plural :=
  have ⟨hname, hdot, hup, _⟩ := isName_plural k
  ⟨hname, hdot, hup⟩

/-- What is near is told by names that a directory can have, so it is where it seems to be. -/
theorem Near.entries (h : Near base k namespaceName l)
    (hnamespace : Naming.isStorable namespaceName = true) (hbase : ∀ p ∈ base, Path.IsEntry p) :
    ∀ p ∈ l, Path.IsEntry p := by
  have hentry := isName_of_isStorable hnamespace
  have hplural := isEntry_plural k
  have hnil : ∀ p ∈ [], Path.IsEntry p := List.forall_mem_nil _
  cases h <;> simp only [kindAt, namespaceAt, List.forall_mem_append, List.forall_mem_cons]
  · exact ⟨hbase, hplural, hnil⟩
  · exact ⟨hbase, hplural, hentry, hnil⟩
  · next hname => exact ⟨⟨hbase, hplural, hentry, hnil⟩, hname, hnil⟩

theorem Near.ne_nil (h : Near base k namespaceName l) : l ≠ [] := by
  cases h <;> simp [kindAt, namespaceAt]

namespace Site

/-- **A site stays one** if something is put near, unless it would replace a directory. -/
theorem put (h : Site root base t) (hnamespace : Naming.isStorable namespaceName = true)
    (hl : Near base k namespaceName l) (hfree : t.node? l ≠ some .directory) (n : FileNode) :
    Site root base (t.put l n) := by
  refine ⟨h.leads.of_keeps (keeps_put hl.ne_nil hfree n), ?_⟩
  exact h.named.put hl.ne_nil (hl.entries hnamespace (h.named base _ h.leads.2)) n

theorem remove (h : Site root base t) (hl : Near base k namespaceName l)
    (hfree : t.node? l ≠ some .directory) : Site root base (t.remove l) :=
  ⟨h.leads.of_keeps (keeps_remove hl.ne_nil hfree), h.named.remove hl.ne_nil⟩

end Site

namespace Touched

theorem refl (h : Site root base t) : Touched root base k namespaceName t t :=
  ⟨h, rfl, fun _ _ => rfl⟩

theorem trans (h : Touched root base k namespaceName t t')
    (h' : Touched root base k namespaceName t' t'') :
    Touched root base k namespaceName t t'' where
  site := h'.site
  workingDirectory := h'.workingDirectory.trans h.workingDirectory
  elsewhere l hl := (h'.elsewhere l hl).trans (h.elsewhere l hl)

/-- Putting something near touches nothing else. -/
theorem put (h : Site root base t) (hnamespace : Naming.isStorable namespaceName = true)
    (hl : Near base k namespaceName l) (hfree : t.node? l ≠ some .directory) (n : FileNode) :
    Touched root base k namespaceName t (t.put l n) where
  site := h.put hnamespace hl hfree n
  workingDirectory := rfl
  elsewhere l' hl' := by
    rw [node?_put t hl.ne_nil, if_neg]
    rintro rfl
    exact hl' hl

theorem remove (h : Site root base t) (hl : Near base k namespaceName l)
    (hfree : t.node? l ≠ some .directory) :
    Touched root base k namespaceName t (t.remove l) where
  site := h.remove hl hfree
  workingDirectory := rfl
  elsewhere l' hl' := by
    rw [node?_remove t hl.ne_nil, if_neg]
    rintro rfl
    exact hl' hl

end Touched

namespace SameNear

theorem refl (h : Site root base t) : SameNear root base k namespaceName t t :=
  ⟨h, h, fun _ _ => rfl⟩

/-- Two trees stay the same near a namespace if the same is put there in both. -/
theorem put (h : SameNear root base k namespaceName t t')
    (hnamespace : Naming.isStorable namespaceName = true) (hl : Near base k namespaceName l)
    (hfree : t.node? l ≠ some .directory) (n : FileNode) :
    SameNear root base k namespaceName (t.put l n) (t'.put l n) where
  site := h.site.put hnamespace hl hfree n
  site' := h.site'.put hnamespace hl (by rwa [h.near l hl]) n
  near l' hl' := by rw [node?_put t hl.ne_nil, node?_put t' hl.ne_nil, h.near l' hl']

theorem remove (h : SameNear root base k namespaceName t t') (hl : Near base k namespaceName l)
    (hfree : t.node? l ≠ some .directory) :
    SameNear root base k namespaceName (t.remove l) (t'.remove l) where
  site := h.site.remove hl hfree
  site' := h.site'.remove hl (by rwa [h.near l hl])
  near l' hl' := by rw [node?_remove t hl.ne_nil, node?_remove t' hl.ne_nil, h.near l' hl']

/-- Under names that are none of files there is nothing in either tree. -/
theorem node?_file (h : SameNear root base k namespaceName t t') (name : String) :
    t'.node? (namespaceAt base k namespaceName ++ [name])
      = t.node? (namespaceAt base k namespaceName ++ [name]) := by
  by_cases hname : Path.IsEntry name
  · exact h.near _ (.file hname)
  · have hnone {t : FileTree} (hnamed : t.Named) :
        t.node? (namespaceAt base k namespaceName ++ [name]) = none :=
      Option.eq_none_iff_forall_ne_some.mpr fun n hn =>
        hname (hnamed _ n hn name (List.mem_append_right _ (List.mem_singleton_self name)))
    rw [hnone h.site.named, hnone h.site'.named]

/-! ### Looking -/

/-- A file of the namespace is at one place in both trees. -/
theorem locate_file_eq (h : SameNear root base k namespaceName t t')
    (hnamespace : Naming.isStorable namespaceName = true) {file : String}
    (hfile : Path.IsName file) :
    t'.locate (Path.join (FileStore.directory root k namespaceName) file)
      = t.locate (Path.join (FileStore.directory root k namespaceName) file) :=
  locate_file_congr h.site.leads h.site'.leads hnamespace hfile (h.near _ .kind)
    (h.near _ .directory)

end SameNear

/-- The way to a namespace leads there or nowhere. -/
theorem eq_of_toNamespace (hnamespace : Naming.isStorable namespaceName = true)
    (h : (t.enter (kindAt base k) >>= fun _ => step namespaceName (kindAt base k)) = .ok l) :
    l = namespaceAt base k namespaceName := by
  obtain ⟨hname, hdot, hup⟩ := isName_of_isStorable hnamespace
  obtain ⟨_, -, hstep⟩ := Answer.bind_eq_ok.mp h
  exact (eq_of_step hname hdot hup hstep).trans (kindAt_append _ _ _)

/-- The path to a file of a namespace leads there or nowhere. -/
theorem location_of_locate (hl : t.Leads root base)
    (hnamespace : Naming.isStorable namespaceName = true) {file : String}
    (hfile : Path.IsEntry file)
    (h : t.locate (Path.join (directory root k namespaceName) file) = .ok l) :
    (t.enter (kindAt base k) >>= fun _ => step namespaceName (kindAt base k))
        = .ok (namespaceAt base k namespaceName)
      ∧ t.node? (namespaceAt base k namespaceName) = some .directory
      ∧ l = namespaceAt base k namespaceName ++ [file] := by
  obtain ⟨_, hcheck, -⟩ := Answer.bind_eq_ok.mp h
  rw [locate_file hl hnamespace hfile.1 hcheck] at h
  obtain ⟨l', hto, h⟩ := Answer.bind_eq_ok.mp h
  obtain rfl := eq_of_toNamespace hnamespace hto
  rw [follow_singleton] at h
  obtain ⟨_, henter, hstep⟩ := Answer.bind_eq_ok.mp h
  exact ⟨hto, enter_eq_ok.mp henter, eq_of_step hfile.1 hfile.2.1 hfile.2.2 hstep⟩

namespace SameNear

/-- **A file of a namespace is read alike.** -/
theorem read_eq (h : SameNear root base k namespaceName t t')
    (hnamespace : Naming.isStorable namespaceName = true) {file : String}
    (hfile : Path.IsEntry file) :
    t'.read (Path.join (FileStore.directory root k namespaceName) file)
      = t.read (Path.join (FileStore.directory root k namespaceName) file) := by
  have hlocate' := h.locate_file_eq hnamespace hfile.1
  cases hlocate : t.locate (Path.join (FileStore.directory root k namespaceName) file) with
  | error e =>
    rw [FileTree.read, FileTree.read, hlocate', hlocate]
    rfl
  | ok l =>
    obtain ⟨-, -, rfl⟩ := location_of_locate h.site.leads hnamespace hfile hlocate
    rw [Layout.read_of_locate (hlocate'.trans hlocate), Layout.read_of_locate hlocate,
      h.node?_file]

/-- **The names of files are found alike.** -/
theorem namesIn_eq (h : SameNear root base k namespaceName t t')
    (hnamespace : Naming.isStorable namespaceName = true) :
    t'.namesIn (FileStore.directory root k namespaceName)
      = t.namesIn (FileStore.directory root k namespaceName) := by
  have hlocate' := locate_directory_congr h.site.leads h.site'.leads hnamespace (h.near _ .kind)
  cases hlocate : t.locate (FileStore.directory root k namespaceName) with
  | error e =>
    rw [namesIn, namesIn, hlocate', hlocate]
    rfl
  | ok l =>
    obtain ⟨_, hcheck, -⟩ := Answer.bind_eq_ok.mp hlocate
    have hto := hlocate
    rw [locate_directory h.site.leads hnamespace hcheck] at hto
    obtain rfl := eq_of_toNamespace hnamespace hto
    have hfound := filter_found_congr (p := fun _ => true) fun file _ => h.node?_file file
    rw [List.filter_true, List.filter_true] at hfound
    rw [namesIn_of_locate (hlocate'.trans hlocate), namesIn_of_locate hlocate, hfound,
      enter_congr (h.near _ .directory)]

end SameNear

/-! ## Actions near a namespace -/

/-- Remove the file at a location. -/
def eraseAt (l : Location) : FileAction Unit := fun t =>
  match t.node? l with
  | none => Action.fail .notFound t
  | some .directory => Action.fail .isADirectory t
  | some (.file _) => Action.done () (t.remove l)

variable {ε ε' α β : Type} {x y : Action FileTree ε α}

/-- **An action stays near a namespace**: it changes nothing elsewhere, and what is elsewhere
makes no difference to it. -/
structure Confined (root : String) (base : Location) (k : Kind) (namespaceName : String)
    (x : Action FileTree ε α) : Prop where
  touched : ∀ t, Site root base t → Touched root base k namespaceName t (x t).state
  alike : ∀ t t', SameNear root base k namespaceName t t' →
    Action.Alike (SameNear root base k namespaceName) x x t t'

namespace Confined

/-- An answer that needs no tree. -/
theorem ofExcept (a : Except ε α) :
    Confined root base k namespaceName (.ofExcept a : Action FileTree ε α) where
  touched _ h := .refl h
  alike _ _ h := .ofExcept a h

/-- What is reported is not in the tree. -/
theorem report (log : Log) :
    Confined root base k namespaceName (.report log : Action FileTree ε Unit) where
  touched _ h := .refl h
  alike _ _ h := .report log h

/-- **One after the other.** -/
theorem bind {f : α → Action FileTree ε β} (hx : Confined root base k namespaceName x)
    (hf : ∀ a, Confined root base k namespaceName (f a)) :
    Confined root base k namespaceName (x >>= f) where
  touched t h := by
    have htouched := hx.touched t h
    show Touched _ _ _ _ _ (Action.andThen x f t).state
    rw [Action.andThen]
    cases (x t).result with
    | error e => exact htouched
    | ok a => exact htouched.trans ((hf a).touched _ htouched.site)
  alike t t' h :=
    have halike := hx.alike t t' h
    halike.bind fun a _ => (hf a).alike _ _ halike.state

theorem mapError (hx : Confined root base k namespaceName x) (f : ε → ε') :
    Confined root base k namespaceName (x.mapError f) where
  touched := hx.touched
  alike t t' h := (hx.alike t t' h).mapError f

/-- An answer to which only what is near makes a difference. -/
theorem look {f : FileTree → Except ε α}
    (hf : ∀ t t', SameNear root base k namespaceName t t' → f t' = f t) :
    Confined root base k namespaceName (Action.state >>= fun t => Action.ofExcept (f t)) where
  touched _ h := .refl h
  alike t t' h := ⟨(hf t t' h).symm, rfl, h⟩

/-- What is done on two trees comes to the same, and stays near. -/
structure Together (root : String) (base : Location) (k : Kind) (namespaceName : String)
    (t : FileTree) (r r' : Outcome FileTree ε α) : Prop where
  touched : Touched root base k namespaceName t r.state
  result : r.result = r'.result
  log : r.log = r'.log
  same : SameNear root base k namespaceName r.state r'.state

/-- To be confined it is enough that the action is on any two trees that are the same near. -/
theorem of_together
    (h : ∀ t t', SameNear root base k namespaceName t t' →
      Together root base k namespaceName t (x t) (x t')) :
    Confined root base k namespaceName x where
  touched t ht := (h t t (.refl ht)).touched
  alike t t' hsame :=
    have htogether := h t t' hsame
    ⟨htogether.result, htogether.log, htogether.same⟩

theorem together (hx : Confined root base k namespaceName x)
    (h : SameNear root base k namespaceName t t') :
    Together root base k namespaceName t (x t) (x t') :=
  have halike := hx.alike t t' h
  ⟨hx.touched t h.site, halike.result, halike.log, halike.state⟩

/-- It is enough to know what an action does on sites. -/
theorem congr (hy : Confined root base k namespaceName y)
    (h : ∀ t, Site root base t → x t = y t) : Confined root base k namespaceName x :=
  of_together fun t t' hsame => by
    rw [h t hsame.site, h t' hsame.site']
    exact hy.together hsame

/-- Looking at a tree without regard to it makes no difference. -/
theorem unread (hx : Confined root base k namespaceName x) :
    Confined root base k namespaceName (Action.state >>= fun _ => x) :=
  congr hx fun _ _ => rfl

/-- **Looking first**: what is looked at near is the same, so what follows is, too. -/
theorem look_bind {f : FileTree → Except ε α} {g : α → Action FileTree ε β}
    (hf : ∀ t t', SameNear root base k namespaceName t t' → f t' = f t)
    (hg : ∀ a, Confined root base k namespaceName (g a)) :
    Confined root base k namespaceName
      (Action.state >>= fun t => Action.ofExcept (f t) >>= g) := by
  rw [← Action.bind_assoc]
  exact (look hf).bind hg

/-- Failing leaves both trees as they are. -/
theorem together_fail (e : ε) (h : SameNear root base k namespaceName t t') :
    Together root base k namespaceName t (Action.fail e t : Outcome FileTree ε α)
      (Action.fail e t') := (ofExcept (.error e)).together h

/-! ### Operations on files -/

variable (hnamespace : Naming.isStorable namespaceName = true)
include hnamespace

/-- Going on after something was put near the namespace. -/
theorem together_put (hx : Confined root base k namespaceName x)
    (h : SameNear root base k namespaceName t t') (hl : Near base k namespaceName l)
    (hfree : t.node? l ≠ some .directory) (n : FileNode) :
    Together root base k namespaceName t (x (t.put l n)) (x (t'.put l n)) :=
  have htogether := hx.together (h.put hnamespace hl hfree n)
  { htogether with touched := (Touched.put h.site hnamespace hl hfree n).trans htogether.touched }

/-- **Writing at a place that is near**: whatever stands there decides alike in both trees. -/
theorem writeAt (hl : Near base k namespaceName l) (text : String) :
    Confined root base k namespaceName (FileTree.writeAt l text) := by
  refine of_together fun t t' h => ?_
  have hput (hfree : t.node? l ≠ some .directory) :=
    together_put (x := (Action.done () : FileAction Unit)) hnamespace (ofExcept (.ok ())) h hl hfree
      (.file text)
  rw [FileTree.writeAt, FileTree.writeAt, h.near l hl]
  cases hn : t.node? l with
  | none => exact hput (by simp [hn])
  | some n =>
    cases n with
    | file _ => exact hput (by simp [hn])
    | directory => exact together_fail _ h

/-- An action at the location that the path to a file leads to. -/
theorem located {file : String} (hfile : Path.IsEntry file) {f : Location → FileAction α}
    {x : FileAction α}
    (hf : Confined root base k namespaceName (f (namespaceAt base k namespaceName ++ [file])))
    (hx : ∀ t, x t = match t.locate (Path.join (FileStore.directory root k namespaceName) file) with
      | .error e => Action.fail e t
      | .ok l => f l t) : Confined root base k namespaceName x := by
  refine of_together fun t t' h => ?_
  rw [hx, hx, h.locate_file_eq hnamespace hfile.1]
  cases hlocate : t.locate (Path.join (FileStore.directory root k namespaceName) file) with
  | error e => exact together_fail e h
  | ok l =>
    obtain ⟨-, -, rfl⟩ := location_of_locate h.site.leads hnamespace hfile hlocate
    exact hf.together h

theorem write {file : String} (hfile : Path.IsEntry file) (text : String) :
    Confined root base k namespaceName
      (FileTree.write (Path.join (FileStore.directory root k namespaceName) file) text) :=
  located hnamespace hfile (writeAt hnamespace (.file hfile) text) fun _ => rfl

theorem writeNew {file : String} (hfile : Path.IsEntry file) (text : String) :
    Confined root base k namespaceName
      (FileTree.writeNew (Path.join (FileStore.directory root k namespaceName) file) text) := by
  refine located hnamespace hfile (of_together fun t t' h => ?_)
    (f := fun l t => if (t.node? l).isSome then Action.fail .alreadyExists t
      else FileTree.writeAt l text t) fun _ => rfl
  simp only [h.node?_file file]
  split
  · exact together_fail _ h
  · exact (writeAt hnamespace (.file hfile) text).together h

omit hnamespace in
theorem eraseAt (hl : Near base k namespaceName l) :
    Confined root base k namespaceName (FileStore.eraseAt l) := by
  refine of_together fun t t' h => ?_
  rw [FileStore.eraseAt, FileStore.eraseAt, h.near l hl]
  cases hn : t.node? l with
  | none => exact together_fail _ h
  | some n =>
    cases n with
    | directory => exact together_fail _ h
    | file _ =>
      have hfree : t.node? l ≠ some .directory := by simp [hn]
      exact ⟨.remove h.site hl hfree, rfl, rfl, h.remove hl hfree⟩

theorem erase {file : String} (hfile : Path.IsEntry file) :
    Confined root base k namespaceName
      (FileTree.erase (Path.join (FileStore.directory root k namespaceName) file)) :=
  located hnamespace hfile (eraseAt (.file hfile)) fun _ => rfl

/-- One step of making directories. -/
theorem makeStep {name : String} {names : List String} {l' : Location}
    (hl : Near base k namespaceName l) (hstep : step name l' = .ok l)
    (hrest : Confined root base k namespaceName (makeSteps names l)) :
    Confined root base k namespaceName (makeSteps (name :: names) l') := by
  refine of_together fun t t' h => ?_
  rw [makeSteps_of_step names hstep, makeSteps_of_step names hstep, h.near l hl]
  cases hn : t.node? l with
  | none => exact together_put hnamespace hrest h hl (by simp [hn]) .directory
  | some n =>
    cases n with
    | file _ => exact together_fail _ h
    | directory => exact hrest.together h

/-- **Making directories** goes down from the root, where all is there, to the kind and to the
namespace. -/
theorem makeDirectories : Confined root base k namespaceName
    (FileTree.makeDirectories (FileStore.directory root k namespaceName)) := by
  obtain ⟨hname, hdot, hup⟩ := isName_of_isStorable hnamespace
  have hmake : Confined root base k namespaceName (makeSteps [k.plural, namespaceName] base) := by
    refine makeStep hnamespace .kind (step_plural k base) ?_
    cases hstep : step namespaceName (kindAt base k) with
    | error e =>
      refine congr (ofExcept (.error e)) fun t _ => ?_
      rw [makeSteps, hstep]
      rfl
    | ok l =>
      obtain rfl := (eq_of_step hname hdot hup hstep).trans (kindAt_append _ _ _)
      exact makeStep hnamespace .directory hstep (ofExcept (.ok ()))
  cases hcheck : checkPath (FileStore.directory root k namespaceName) with
  | error e =>
    refine congr (ofExcept (.error e)) fun t h => ?_
    rw [makeDirectories_directory h.leads hnamespace, hcheck]
    rfl
  | ok _ =>
    refine congr hmake fun t h => ?_
    rw [makeDirectories_directory h.leads hnamespace, hcheck]

end Confined

namespace SameNear

variable (hnamespace : Naming.isStorable namespaceName = true)
include hnamespace

/-- What is read of an object stands in its file, which is near. -/
theorem object_eq (h : SameNear root base k namespaceName t t') {name : String}
    (hname : Naming.isStorable name = true) :
    read root k namespaceName name t' = read root k namespaceName name t := by
  have hread : t'.read (path root ⟨k, namespaceName, name⟩)
      = t.read (path root ⟨k, namespaceName, name⟩) :=
    h.read_eq hnamespace (isName_fileName (isName_of_isStorable hname).1)
  rw [read, read, hread]

/-- What is listed stands in the files of one directory, all of which are near. -/
theorem listed_eq (h : SameNear root base k namespaceName t t') (selector : Selector) :
    listed root k namespaceName selector t' = listed root k namespaceName selector t := by
  have hnames' := h.namesIn_eq hnamespace
  cases hnames : t.namesIn (FileStore.directory root k namespaceName) with
  | error e =>
    rw [listed_of_error selector (hnames'.trans hnames), listed_of_error selector hnames]
  | ok names =>
    rw [listed_of_names selector (hnames'.trans hnames), listed_of_names selector hnames]
    refine congrArg (· >>= _) (readAll_congr fun file hf => ?_)
    obtain ⟨l, hlocate, -⟩ := Answer.bind_eq_ok.mp hnames
    obtain ⟨n, hn⟩ := ((mem_namesIn hlocate hnames).2 file).mp (List.mem_filter.mp hf).1
    exact h.read_eq hnamespace
      (h.site.named _ n hn file (List.mem_append_right _ (List.mem_singleton_self file)))

end SameNear

/-! ## Calls -/

section Calls

variable {name : String}

theorem confined_get (hkey : Naming.checkKey ⟨k, namespaceName, name⟩ = .ok ()) :
    Confined root base k namespaceName (get root k namespaceName name) := by
  obtain ⟨hnamespace, hname⟩ := checkKey_eq_ok.mp hkey
  exact (Confined.ofExcept _).bind fun _ => .look fun t t' h => h.object_eq hnamespace hname

theorem confined_list (hnamespace : Naming.isStorable namespaceName = true)
    (selector : Selector) :
    Confined root base k namespaceName (list root k namespaceName selector) :=
  (Confined.ofExcept _).bind fun _ => .look fun _ _ h => h.listed_eq hnamespace selector

/-- Creating makes the directories and writes one file; the time is the only thing it takes from
elsewhere. -/
theorem confined_create {o : Object k} (hkey : Naming.checkKey o.key = .ok ()) (now : Timestamp) :
    Confined root base k o.namespaceName (create root (fun _ => now) k o) := by
  obtain ⟨hnamespace, hname⟩ := checkKey_eq_ok.mp hkey
  have hfile := isName_fileName (isName_of_isStorable hname).1
  refine (Confined.ofExcept _).bind fun _ => Confined.unread ?_
  refine Confined.bind ?_ fun _ => Confined.bind ?_ fun _ =>
    (Confined.report _).bind fun _ => .ofExcept (.ok _)
  · exact (Confined.makeDirectories hnamespace).mapError _
  · exact (Confined.writeNew hnamespace hfile _).mapError _

/-- Updating reads a file and writes over it. -/
theorem confined_update {o : Object k} (hkey : Naming.checkKey o.key = .ok ()) :
    Confined root base k o.namespaceName (update root k o) := by
  obtain ⟨hnamespace, hname⟩ := checkKey_eq_ok.mp hkey
  have hfile := isName_fileName (isName_of_isStorable hname).1
  refine (Confined.ofExcept _).bind fun _ => ?_
  refine .look_bind (fun t t' h => h.object_eq hnamespace hname) fun stored => ?_
  refine (Confined.ofExcept _).bind fun _ => ?_
  refine Confined.bind ?_ fun _ => (Confined.report _).bind fun _ => .ofExcept (.ok _)
  exact (Confined.write hnamespace hfile _).mapError _

theorem confined_delete (hkey : Naming.checkKey ⟨k, namespaceName, name⟩ = .ok ()) :
    Confined root base k namespaceName (delete root k namespaceName name) := by
  obtain ⟨hnamespace, hname⟩ := checkKey_eq_ok.mp hkey
  have hfile := isName_fileName (isName_of_isStorable hname).1
  refine (Confined.ofExcept _).bind fun _ => Confined.bind ?_ fun _ => .report _
  exact (Confined.erase hnamespace hfile).mapError _

end Calls

/-- When the time of a call is known, nothing more is asked of the clock. -/
theorem create_at (root : String) (clock : FileTree → Timestamp) (o : Object k) (t : FileTree) :
    create root clock k o t = create root (fun _ => clock t) k o t := by
  unfold create
  exact Action.checked_congr (Naming.checkKey o.key) rfl

/-- The clock is asked once for each request, for the tree that the request is issued on. -/
theorem issue_at (root : String) (clock : FileTree → Timestamp) (r : Request) (t : FileTree) :
    r.issue (store root clock) t = r.issue (store root fun _ => clock t) t := by
  cases r with
  | create k o =>
    simp only [Request.issue, store]
    exact Action.bind_congr (create_at root clock o t) _
  | get => simp only [Request.issue, store]
  | list => simp only [Request.issue, store]
  | update => simp only [Request.issue, store]
  | delete => simp only [Request.issue, store]

/-! ## Requests -/

variable {r : Request} {e : StoreError} {key key' : ObjectKey} {selector : Selector}
  {clock : FileTree → Timestamp}

theorem invalid_of_checkPart {what value : String}
    (h : Naming.checkPart k what value = .error e) : ∃ message, e = .invalid message := by
  rw [Naming.checkPart] at h
  split at h
  · cases h
  · exact ⟨_, (Except.error.inj h).symm⟩

theorem invalid_of_checkKey (h : Naming.checkKey key = .error e) :
    ∃ message, e = .invalid message := by
  rcases Answer.bind_eq_error.mp h with h | ⟨_, -, h⟩
  · exact invalid_of_checkPart h
  · exact invalid_of_checkPart h

/-- **Names that cannot be stored are refused** before anything is touched. -/
theorem issue_refused (clock : FileTree → Timestamp) (h : r.check = .error e) (t : FileTree) :
    r.issue (store root clock) t = { result := .error e, state := t } := by
  cases r <;> simp only [Request.issue, store, get, list, create, update, delete]
  all_goals exact Action.fails_checked h _ _ t

/-- **What fails the check of its key is refused as invalid**, whatever the request. -/
theorem invalid_of_check (h : r.check = .error e) : ∃ message, e = .invalid message := by
  cases r with
  | list => exact invalid_of_checkPart h
  | get | create | update | delete => exact invalid_of_checkKey h

/-- **A request stays near its namespace.** -/
theorem confined_issue (h : r.check = .ok ()) (now : Timestamp) :
    Confined root base r.kind r.namespaceName (r.issue (store root fun _ => now)) := by
  cases r <;> simp only [Request.issue, store]
  case get key => exact (confined_get h).bind fun _ => .ofExcept (.ok _)
  case list k namespaceName selector =>
    exact (confined_list (checkPart_eq_ok.mp h) selector).bind fun _ => .ofExcept (.ok _)
  case create k o => exact (confined_create h now).bind fun _ => .ofExcept (.ok _)
  case update k o => exact (confined_update h).bind fun _ => .ofExcept (.ok _)
  case delete key => exact (confined_delete h).bind fun _ => .ofExcept (.ok _)

/-! ## Paths -/

/-- **Where the path of a key is**: three names of files below the root. -/
structure Filed (root : String) (key : ObjectKey) : Prop where
  steps : ∃ xs, (Path.steps root = xs ∨ Path.steps root = xs ++ [""])
    ∧ Path.steps (path root key)
      = xs ++ [key.kind.plural, key.namespaceName, fileName key.name]
  entries : ∀ p ∈ [key.kind.plural, key.namespaceName, fileName key.name], Path.IsEntry p
  isObjectFile : isObjectFile (fileName key.name) = true
  location : ∀ (base : Location) (t : FileTree) (l : Location), t.Leads root base →
    t.locate (path root key) = .ok l → l = place base key

theorem filed (root : String) (h : Naming.checkKey key = .ok ()) : Filed root key where
  steps := by
    obtain ⟨hnamespace, hname⟩ := checkKey_eq_ok.mp h
    have hspace := (isName_of_isStorable hnamespace).1
    have hfile := (isName_fileName (isName_of_isStorable hname).1).1
    have hplural := (isName_plural key.kind).1
    have hsteps : Path.steps (path root key) = Path.steps (Path.join root key.kind.plural)
        ++ [key.namespaceName, fileName key.name] := by
      rw [path, ← fileName, directory, Path.steps_join_join hspace hfile,
        Path.steps_join_join hplural hspace, List.append_assoc, List.singleton_append]
    rw [hsteps]
    rcases Path.steps_join root hplural with ⟨xs, hxs, hjoin⟩ | hjoin
    · exact ⟨xs, .inr hxs, by rw [hjoin, List.append_assoc, List.singleton_append]⟩
    · exact ⟨_, .inl rfl, by rw [hjoin, List.append_assoc, List.singleton_append]⟩
  entries := by
    obtain ⟨hnamespace, hname⟩ := checkKey_eq_ok.mp h
    rw [List.forall_mem_cons, List.forall_mem_cons, List.forall_mem_singleton]
    exact ⟨isEntry_plural key.kind, isName_of_isStorable hnamespace,
      isName_fileName (isName_of_isStorable hname).1⟩
  isObjectFile := isObjectFile_fileName (isName_of_isStorable (checkKey_eq_ok.mp h).2).1.1
  location base t l hl hlocate := by
    obtain ⟨hnamespace, hname⟩ := checkKey_eq_ok.mp h
    have hfile := isName_fileName (isName_of_isStorable hname).1
    rw [Layout.place_eq]
    exact (location_of_locate hl hnamespace hfile hlocate).2.2

/-- **Different keys have different paths.** -/
theorem path_injective (h : Naming.checkKey key = .ok ()) (h' : Naming.checkKey key' = .ok ())
    (heq : path root key = path root key') : key = key' := by
  obtain ⟨xs, -, hsteps⟩ := (filed root h).steps
  obtain ⟨xs', -, hsteps'⟩ := (filed root h').steps
  rw [heq, hsteps'] at hsteps
  exact @place_injective [] _ _ (List.append_inj_right' hsteps rfl).symm

/-- What a call gives that only looks, after a check. -/
theorem of_checked_look {y : Except StoreError Unit} {f : FileTree → Except StoreError α} {a : α}
    (h : ((Action.ofExcept y >>= fun _ => Action.state >>= fun t => Action.ofExcept (f t) :
      Call FileTree α) t).result = .ok a) : y = .ok () ∧ f t = .ok a := by
  cases y with
  | error e => cases h
  | ok _ => exact ⟨rfl, h⟩

/-- **A listing overlooks no object** that can be got and is asked for. -/
theorem mem_of_list {name : String} {o : Object k} {os : List (Object k)} (hl : t.Leads root base)
    (hget : (get root k namespaceName name t).result = .ok o)
    (hlist : (list root k namespaceName selector t).result = .ok os)
    (haccepts : selector.accepts o.labels = true) : o ∈ os := by
  obtain ⟨hkey, hread⟩ := of_checked_look hget
  obtain ⟨hnamespace, hlisted⟩ := of_checked_look hlist
  obtain ⟨hspace, hname⟩ := checkKey_eq_ok.mp hkey
  have hfile := isName_fileName (isName_of_isStorable hname).1
  obtain ⟨text, htext, ho⟩ := Answer.bind_eq_ok.mp hread
  rw [Answer.mapError_eq_ok] at htext
  -- where the file is, a listing looks
  obtain ⟨l, hlocate, hnode⟩ := Answer.bind_eq_ok.mp htext
  obtain ⟨hto, hdirectory, rfl⟩ := location_of_locate hl hspace hfile hlocate
  have hlocate' : t.locate (directory root k namespaceName)
      = .ok (namespaceAt base k namespaceName) := by
    obtain ⟨_, hcheck, -⟩ := Answer.bind_eq_ok.mp hlocate
    rw [locate_directory hl hspace (checkPath_of_join hfile.1 hcheck), hto]
  have hnames := namesIn_of_locate hlocate'
  rw [enter_eq_ok.mpr hdirectory] at hnames
  rw [listed_of_names selector hnames] at hlisted
  obtain ⟨os', hos, hlisted⟩ := Answer.bind_eq_ok.mp hlisted
  cases hlisted
  rw [List.mem_mergeSort, List.mem_filter, mem_readAll hos]
  refine ⟨⟨fileName name, List.mem_filter.mpr ⟨?_, ?_⟩, text, htext, ho⟩, haccepts⟩
  · rw [(mem_namesIn hlocate' hnames).2]
    cases hn : t.node? (namespaceAt base k namespaceName ++ [fileName name]) with
    | none =>
      rw [hn] at hnode
      cases hnode
    | some n => exact ⟨n, rfl⟩
  · exact isObjectFile_fileName (isName_of_isStorable hname).1.1

/-! ## A store below its root -/

/-- A store that has been opened is at a site. -/
theorem exists_site_of_openAt (hnamed : t.Named)
    (hstart : t.node? t.workingDirectory = some .directory)
    (hok : (openAt root t).result = .ok ()) : ∃ base, Site root base (openAt root t).state := by
  generalize hmade : FileTree.makeDirectories root t = r
  have hleaves : (FileTree.makeDirectories root).Leaves t r.result r.state :=
    ⟨congrArg Outcome.result hmade, congrArg Outcome.state hmade⟩
  cases hresult : r.result with
  | error e =>
    rw [hresult] at hleaves
    cases hleaves.mapError.bind_error.1.symm.trans hok
  | ok _ =>
    rw [hresult] at hleaves
    have hstate : (openAt root t).state = r.state :=
      (Action.Leaves.bind hleaves.mapError (Action.leaves_report _ _)).2
    obtain ⟨hnamed', base, hl⟩ := leads_of_makeDirectories hnamed hstart hleaves.1
    rw [hleaves.2, ← hstate] at hl hnamed'
    exact ⟨base, hl, hnamed'⟩

/-- **A store in files stays below its root and keeps keys apart.** -/
structure Contained (root : String) (clock : FileTree → Timestamp) : Prop where
  /-- A request with names that cannot be stored is refused in any tree, which stays as it is. -/
  refused : ∀ (r : Request) (e : StoreError), r.check = .error e →
    (∃ message, e = .invalid message)
      ∧ ∀ t, r.issue (store root clock) t = { result := .error e, state := t }
  /-- Any other request changes nothing but what is near its namespace. -/
  touched : ∀ (r : Request) (base : Location) (t : FileTree), r.check = .ok () →
    Site root base t →
    Touched root base r.kind r.namespaceName t (r.issue (store root clock) t).state
  /-- And it sees nothing else: it comes to the same wherever there is the same near its
  namespace. -/
  alike : ∀ (r : Request) (base : Location) (t t' : FileTree), r.check = .ok () →
    SameNear root base r.kind r.namespaceName t t' → clock t = clock t' →
    Action.Alike (SameNear root base r.kind r.namespaceName) (r.issue (store root clock))
      (r.issue (store root clock)) t t'
  /-- The path of a key is three names of files below the root, the last one with the extension
  of objects. -/
  filed : ∀ key, Naming.checkKey key = .ok () → Filed root key
  /-- Different keys have different paths. -/
  apart : ∀ key key', Naming.checkKey key = .ok () → Naming.checkKey key' = .ok () →
    path root key = path root key' → key = key'
  /-- An object that can be got is listed, if the namespace can be listed and the object is
  asked for. -/
  listed : ∀ (base : Location) (t : FileTree) (k : Kind) (namespaceName name : String)
    (selector : Selector) (o : Object k) (os : List (Object k)), t.Leads root base →
    (get root k namespaceName name t).result = .ok o →
    (list root k namespaceName selector t).result = .ok os →
    selector.accepts o.labels = true → o ∈ os

/-- **A store in files is contained**, whatever its root is, and whatever names requests
hold. -/
theorem contained (root : String) (clock : FileTree → Timestamp) : Contained root clock where
  refused _ _ h := ⟨invalid_of_check h, issue_refused clock h⟩
  touched r _ t h ht := by
    rw [issue_at]
    exact (confined_issue h (clock t)).touched t ht
  alike r _ t t' h hsame hclock := by
    have halike := (confined_issue h (clock t)).alike t t' hsame
    refine ⟨?_, ?_, ?_⟩
    all_goals rw [issue_at root clock r t, issue_at root clock r t', ← hclock]
    · exact halike.result
    · exact halike.log
    · exact halike.state
  filed _ h := filed root h
  apart _ _ h h' := path_injective h h'
  listed _ _ _ _ _ _ _ _ hl hget hlist haccepts := mem_of_list hl hget hlist haccepts

/-- In a store that has just been opened, a name that leads out of it is refused, and an object
is written where it belongs. -/
theorem contained_when_opened :
    (openAt "/data" {}).result = .ok () ∧ ∃ base, Site "/data" base (openAt "/data" {}).state
      ∧ (Request.delete ⟨.gitRepository, "..", "x"⟩).issue (store "/data" fun _ => noon)
          (openAt "/data" {}).state
        = { result := .error (.invalid "GitRepository namespace \"..\" is not valid")
            state := (openAt "/data" {}).state }
      ∧ Touched "/data" base .gitRepository "team" (openAt "/data" {}).state
          ((Request.create .gitRepository plainSource).issue (store "/data" fun _ => noon)
            (openAt "/data" {}).state).state := by
  have hok : (openAt "/data" {}).result = .ok () := by decide +kernel
  have hnamed : ({} : FileTree).Named := by
    intro l n hn
    cases l with
    | nil => exact List.forall_mem_nil _
    | cons p l => cases hn
  obtain ⟨base, hsite⟩ := exists_site_of_openAt hnamed rfl hok
  have hcontained := contained "/data" fun _ => noon
  refine ⟨hok, base, hsite, ?_, ?_⟩
  · exact (hcontained.refused (.delete ⟨.gitRepository, "..", "x"⟩) _ (by decide +kernel)).2 _
  · exact hcontained.touched (.create .gitRepository plainSource) base _ (by decide) hsite

end FileStore

end PlanSync
