import PlanSync.Proofs.Files.Tree
import PlanSync.Proofs.Store.FileText

/-!
# What a store in files keeps where

Below the root of a store in files stand the directories of the kinds, below these the
directories of the namespaces, and below these the files of the objects. Nothing else is
ever there (`FileStore.Layout`), so what is under a key is the text at one location
(`FileStore.textAt`), and every operation on the tree comes down to what it does to the
texts.

A tree cannot keep every key: a name may be too long for it, and so may a path. Nothing is
ever under a key that the tree cannot keep.
-/

namespace PlanSync

namespace FileStore

open FileTree

/-! ## Names and places -/

/-- A part of a key that can be stored is a step of a path like any other. -/
theorem isName_of_isStorable {s : String} (h : Naming.isStorable s = true) :
    Path.IsName s ∧ s ≠ "." ∧ s ≠ ".." := by
  simp only [Naming.isStorable, ne_eq, decide_not, Bool.and_eq_true, Bool.not_eq_eq_eq_not,
    Bool.not_true, decide_eq_false_iff_not, List.contains_eq_mem] at h
  obtain ⟨⟨⟨⟨hempty, hslash⟩, -⟩, hdot⟩, hup⟩ := h
  exact ⟨⟨hempty, hslash⟩, hdot, hup⟩

theorem checkPart_eq_ok {kind : Kind} {what value : String} :
    Naming.checkPart kind what value = .ok () ↔ Naming.isStorable value = true := by
  rw [Naming.checkPart]
  split
  · next h => exact ⟨fun _ => h, fun _ => rfl⟩
  · next h => exact ⟨(fun herror => by cases herror), fun hok => absurd hok h⟩

theorem checkKey_eq_ok {key : ObjectKey} : Naming.checkKey key = .ok ()
    ↔ Naming.isStorable key.namespaceName = true ∧ Naming.isStorable key.name = true := by
  rw [Naming.checkKey, Answer.bind_eq_ok]
  constructor
  · rintro ⟨⟨⟩, hnamespace, hname⟩
    exact ⟨checkPart_eq_ok.mp hnamespace, checkPart_eq_ok.mp hname⟩
  · rintro ⟨hnamespace, hname⟩
    exact ⟨(), checkPart_eq_ok.mpr hnamespace, checkPart_eq_ok.mpr hname⟩

/-- The name of an object's file. -/
def fileName (name : String) : String := name ++ extension

theorem isName_fileName {name : String} (h : Path.IsName name) :
    Path.IsName (fileName name) ∧ fileName name ≠ "." ∧ fileName name ≠ ".." := by
  have hlength : 5 ≤ (fileName name).toList.length := by
    rw [fileName, String.toList_append, List.length_append]
    exact Nat.le_add_left _ _
  have hne {s : String} (hs : s.toList.length < 5) : fileName name ≠ s := fun heq =>
    absurd hlength (Nat.not_le.mpr (heq ▸ hs))
  refine ⟨⟨hne (by decide), ?_⟩, hne (by decide), hne (by decide)⟩
  rw [fileName, String.toList_append, List.mem_append, not_or]
  exact ⟨h.2, by decide⟩

theorem fileName_injective {name name' : String} (h : fileName name = fileName name') :
    name = name' := String.append_left_inj _ |>.mp h

theorem isName_plural (k : Kind) : Path.IsName k.plural ∧ k.plural ≠ "." ∧ k.plural ≠ ".."
    ∧ k.plural.utf8ByteSize ≤ maxNameBytes := by
  cases k <;> exact ⟨⟨by decide, by decide⟩, by decide, by decide, by decide⟩

theorem plural_injective {k k' : Kind} (h : k.plural = k'.plural) : k = k' := by
  cases k <;> cases k' <;> first | rfl | exact absurd h (by decide)

/-- The location of a kind. -/
def kindAt (base : Location) (k : Kind) : Location := base ++ [k.plural]

/-- The location of a namespace. -/
def namespaceAt (base : Location) (k : Kind) (namespaceName : String) : Location :=
  base ++ [k.plural, namespaceName]

/-- **The location of an object**. -/
def place (base : Location) (key : ObjectKey) : Location :=
  base ++ [key.kind.plural, key.namespaceName, fileName key.name]

theorem place_injective {base : Location} {key key' : ObjectKey}
    (h : place base key = place base key') : key = key' := by
  have h := List.append_cancel_left h
  simp only [List.cons.injEq, and_true] at h
  obtain ⟨hkind, hnamespace, hname⟩ := h
  rcases key with ⟨k, namespaceName, name⟩
  rcases key' with ⟨k', namespaceName', name'⟩
  obtain rfl := plural_injective hkind
  obtain rfl := fileName_injective hname
  obtain rfl := hnamespace
  rfl

theorem place_ne_nil (base : Location) (key : ObjectKey) : place base key ≠ [] :=
  List.append_ne_nil_of_right_ne_nil _ (List.cons_ne_nil _ _)

/-- **Whether a tree can keep a key**: neither a step nor the path to its file is too long, and
it has no NUL character. -/
def Keepable (root : String) (key : ObjectKey) : Prop :=
  checkPath (path root key) = .ok () ∧ key.namespaceName.utf8ByteSize ≤ maxNameBytes
    ∧ (fileName key.name).utf8ByteSize ≤ maxNameBytes

/-! ## Following the paths of a store -/

section Paths

variable {root : String} {base : Location} {t t' : FileTree} {k : Kind} {namespaceName : String}
  {key : ObjectKey}

/-- A step to a name leads to what has the name, if the name is not too long. -/
theorem step_of_isName {name : String} (h : Path.IsName name) (hdot : name ≠ ".")
    (hup : name ≠ "..") (l : Location) :
    step name l = if maxNameBytes < name.utf8ByteSize then .error .nameTooLong
      else .ok (l ++ [name]) := by
  rw [step, if_neg (by simp [h.1, hdot]), if_neg hup]

theorem eq_of_step {name : String} (h : Path.IsName name) (hdot : name ≠ ".") (hup : name ≠ "..")
    {l l' : Location} (hstep : step name l = .ok l') : l' = l ++ [name] := by
  rw [step_of_isName h hdot hup] at hstep
  split at hstep
  · cases hstep
  · exact (Except.ok.inj hstep).symm

theorem step_plural (k : Kind) (base : Location) : step k.plural base = .ok (kindAt base k) := by
  obtain ⟨hname, hdot, hup, hsize⟩ := isName_plural k
  rw [step_of_isName hname hdot hup, if_neg (Nat.not_lt.mpr hsize), kindAt]

/-- The steps to a namespace. -/
theorem exists_steps_directory (hl : t.Leads root base)
    (hnamespace : Naming.isStorable namespaceName = true) :
    ∃ xs, Path.steps (directory root k namespaceName) = xs ++ [k.plural, namespaceName]
      ∧ t.follow xs (t.start (directory root k namespaceName)) = .ok base := by
  have hplural := (isName_plural k).1
  have hname := (isName_of_isStorable hnamespace).1
  obtain ⟨xs, hsteps, hfollow⟩ := hl.exists_steps_join hplural
  refine ⟨xs, ?_, ?_⟩
  · rw [directory, Path.steps_join_join hplural hname, hsteps, List.append_assoc,
      List.singleton_append]
  · rwa [directory, start, Path.isAbsolute_join hname, ← start]

/-- Following the path to a namespace. -/
theorem locate_directory (hl : t.Leads root base)
    (hnamespace : Naming.isStorable namespaceName = true)
    (hpath : checkPath (directory root k namespaceName) = .ok ()) :
    t.locate (directory root k namespaceName)
      = (t.enter (kindAt base k) >>= fun _ => step namespaceName (kindAt base k)) := by
  obtain ⟨xs, hsteps, hfollow⟩ := exists_steps_directory (k := k) hl hnamespace
  have hempty : directory root k namespaceName ≠ "" :=
    Path.join_ne_empty (isName_of_isStorable hnamespace).1
  rw [locate, hpath]
  show (if _ then _ else _) = _
  rw [if_neg hempty, hsteps, follow_append, hfollow]
  show t.follow [k.plural, namespaceName] base = _
  rw [follow, enter_eq_ok.mpr hl.2]
  show (step k.plural base >>= t.follow [namespaceName]) = _
  rw [step_plural]
  exact follow_singleton ..

/-- Following the path to a file of a namespace. -/
theorem locate_file {file : String} (hl : t.Leads root base)
    (hnamespace : Naming.isStorable namespaceName = true) (hfile : Path.IsName file)
    (hpath : checkPath (Path.join (directory root k namespaceName) file) = .ok ()) :
    t.locate (Path.join (directory root k namespaceName) file)
      = (t.enter (kindAt base k) >>= fun _ => step namespaceName (kindAt base k))
        >>= t.follow [file] := by
  have hname := (isName_of_isStorable hnamespace).1
  obtain ⟨xs, hsteps, hfollow⟩ := exists_steps_directory (k := k) hl hnamespace
  have hsteps' : Path.steps (Path.join (directory root k namespaceName) file)
      = xs ++ [k.plural, namespaceName, file] := by
    rw [directory, Path.steps_join_join hname hfile, ← directory, hsteps, List.append_assoc,
      List.cons_append, List.singleton_append]
  rw [start, ← Path.isAbsolute_join hfile, ← start] at hfollow
  rw [locate, hpath]
  show (if _ then _ else _) = _
  rw [if_neg (Path.join_ne_empty hfile), hsteps', follow_append, hfollow]
  show t.follow [k.plural, namespaceName, file] base = _
  rw [follow, enter_eq_ok.mpr hl.2]
  show (step k.plural base >>= t.follow [namespaceName, file]) = _
  rw [step_plural]
  show (t.enter (kindAt base k) >>= fun _ =>
    step namespaceName (kindAt base k) >>= t.follow [file]) = _
  cases t.enter (kindAt base k) <;> rfl

/-- **Following the path to an object.** -/
theorem locate_path (hl : t.Leads root base) (hkey : Naming.checkKey key = .ok ())
    (hpath : checkPath (path root key) = .ok ()) :
    t.locate (path root key)
      = (t.enter (kindAt base key.kind) >>= fun _ =>
          step key.namespaceName (kindAt base key.kind)) >>= t.follow [fileName key.name] := by
  obtain ⟨hnamespace, hname⟩ := checkKey_eq_ok.mp hkey
  exact locate_file hl hnamespace (isName_fileName (isName_of_isStorable hname).1).1 hpath

/-- The way to a namespace depends on the directory of the kind only. -/
theorem locate_directory_congr (hl : t.Leads root base) (hl' : t'.Leads root base)
    (hnamespace : Naming.isStorable namespaceName = true)
    (hkind : t'.node? (kindAt base k) = t.node? (kindAt base k)) :
    t'.locate (directory root k namespaceName) = t.locate (directory root k namespaceName) := by
  cases hcheck : checkPath (directory root k namespaceName) with
  | error e =>
    rw [locate, locate, hcheck]
    rfl
  | ok _ =>
    rw [locate_directory hl' hnamespace hcheck, locate_directory hl hnamespace hcheck,
      enter_congr hkind]

theorem kindAt_append (base : Location) (k : Kind) (namespaceName : String) :
    kindAt base k ++ [namespaceName] = namespaceAt base k namespaceName := by
  rw [kindAt, List.append_assoc]
  rfl

/-- The way to a file of a namespace depends on the two directories before it only. -/
theorem locate_file_congr {file : String} (hl : t.Leads root base) (hl' : t'.Leads root base)
    (hnamespace : Naming.isStorable namespaceName = true) (hfile : Path.IsName file)
    (hkind : t'.node? (kindAt base k) = t.node? (kindAt base k))
    (hdirectory : t'.node? (namespaceAt base k namespaceName)
      = t.node? (namespaceAt base k namespaceName)) :
    t'.locate (Path.join (directory root k namespaceName) file)
      = t.locate (Path.join (directory root k namespaceName) file) := by
  cases hcheck : checkPath (Path.join (directory root k namespaceName) file) with
  | error e =>
    rw [locate, locate, hcheck]
    rfl
  | ok _ =>
    obtain ⟨hname, hdot, hup⟩ := isName_of_isStorable hnamespace
    rw [locate_file hl' hnamespace hfile hcheck, locate_file hl hnamespace hfile hcheck,
      enter_congr hkind, step_of_isName hname hdot hup]
    cases t.enter (kindAt base k) with
    | error e => rfl
    | ok _ =>
      split
      · rfl
      · show t'.follow _ _ = t.follow _ _
        rw [kindAt_append, follow_singleton, follow_singleton, enter_congr hdirectory]

/-- Making the directory of a namespace is making that of the kind and its own. -/
theorem makeDirectories_directory (hl : t.Leads root base)
    (hnamespace : Naming.isStorable namespaceName = true) :
    makeDirectories (directory root k namespaceName) t
      = match checkPath (directory root k namespaceName) with
        | .error e => Action.fail e t
        | .ok _ => makeSteps [k.plural, namespaceName] base t := by
  obtain ⟨hname, hdot, -⟩ := isName_of_isStorable hnamespace
  obtain ⟨xs, hsteps, hfollow⟩ := exists_steps_directory (k := k) hl hnamespace
  rw [makeDirectories_eq (hsteps.trans (List.append_assoc xs [k.plural] [namespaceName]).symm)
    hname.1 hdot (Path.join_ne_empty hname), hsteps, makeSteps_append _ hfollow hl.2]
  cases checkPath (directory root k namespaceName) <;> rfl

end Paths

/-! ## The layout -/

/-- **A text that a store has written** for a key under the number of a version: the text of an
object with this key and this version. -/
def Written (key : ObjectKey) (x : Nat) (text : String) : Prop :=
  ∃ o : Object key.kind, o.key = key ∧ o.CreationReadsBack
    ∧ o.metadata.resourceVersion = some (Text.decimal x) ∧ x < Text.wordBound ∧ text = content o

/-- What may be in the file of a key. -/
structure Kept (root : String) (key : ObjectKey) (text : String) : Prop where
  storable : Naming.checkKey key = .ok ()
  keepable : Keepable root key
  written : ∃ x, Written key x text

/-- What may be where below the root of a store. -/
inductive Allowed (root : String) (base : Location) (t : FileTree) : Location → FileNode → Prop
  | kind (k : Kind) : Allowed root base t (kindAt base k) .directory
  | namespace {k : Kind} {namespaceName : String}
      (hkind : t.node? (kindAt base k) = some .directory)
      (hsize : namespaceName.utf8ByteSize ≤ maxNameBytes) :
    Allowed root base t (namespaceAt base k namespaceName) .directory
  | object {key : ObjectKey} {text : String}
      (hnamespace : t.node? (namespaceAt base key.kind key.namespaceName) = some .directory)
      (hkept : Kept root key text) : Allowed root base t (place base key) (.file text)

/-- **The layout of a store in files**: its root leads to a directory, and nothing is below but
what belongs to the store. -/
structure Layout (root : String) (base : Location) (t : FileTree) : Prop where
  leads : t.Leads root base
  below : ∀ l n, l ≠ [] → t.node? (base ++ l) = some n → Allowed root base t (base ++ l) n

/-- **The text under a key**. -/
def textAt (base : Location) (t : FileTree) (key : ObjectKey) : Option String :=
  match t.node? (place base key) with
  | some (.file text) => some text
  | _ => none

/-- Two trees have the same texts under all keys. -/
def SameTexts (base : Location) (t t' : FileTree) : Prop :=
  ∀ key, textAt base t' key = textAt base t key

theorem textAt_of_node? {base : Location} {t t' : FileTree} {key : ObjectKey}
    (h : t'.node? (place base key) = t.node? (place base key)) :
    textAt base t' key = textAt base t key := by
  rw [textAt, textAt, h]

theorem textAt_put {base : Location} {t : FileTree} {key key' : ObjectKey} {text : String} :
    textAt base (t.put (place base key) (.file text)) key'
      = if key' = key then some text else textAt base t key' := by
  by_cases hkey : key' = key
  · subst hkey
    rw [textAt, node?_put t (place_ne_nil _ _), if_pos rfl, if_pos rfl]
  · rw [if_neg hkey]
    refine textAt_of_node? ?_
    rw [node?_put t (place_ne_nil _ _), if_neg fun heq => hkey (place_injective heq)]

theorem textAt_remove {base : Location} {t : FileTree} {key key' : ObjectKey} :
    textAt base (t.remove (place base key)) key'
      = if key' = key then none else textAt base t key' := by
  by_cases hkey : key' = key
  · subst hkey
    rw [textAt, node?_remove t (place_ne_nil _ _), if_pos rfl, if_pos rfl]
  · rw [if_neg hkey]
    refine textAt_of_node? ?_
    rw [node?_remove t (place_ne_nil _ _), if_neg fun heq => hkey (place_injective heq)]

namespace Allowed

variable {root : String} {base l : Location} {t t' : FileTree} {n : FileNode}

theorem of_keeps (h : Allowed root base t l n) (hkeeps : t.Keeps t') :
    Allowed root base t' l n := by
  cases h with
  | kind k => exact .kind k
  | «namespace» hkind hsize => exact .namespace (hkeeps.2 _ hkind) hsize
  | object hnamespace hkept => exact .object (hkeeps.2 _ hnamespace) hkept

end Allowed

namespace Layout

variable {root : String} {base : Location} {t : FileTree} {k : Kind} {namespaceName : String}
  {key : ObjectKey} {text : String} {n : FileNode}

/-- In the place of a kind is its directory. -/
theorem node?_kindAt (h : Layout root base t) (hn : t.node? (kindAt base k) = some n) :
    n = .directory := by
  have hallowed := h.below [k.plural] n (List.cons_ne_nil _ _) hn
  generalize hl : base ++ [k.plural] = l at hallowed
  cases hallowed with
  | kind k' => rfl
  | «namespace» hkind hsize => rfl
  | object hnamespace hkept =>
    have := congrArg List.length hl
    simp [place] at this

/-- In the place of a namespace is its directory. -/
theorem node?_namespaceAt (h : Layout root base t)
    (hn : t.node? (namespaceAt base k namespaceName) = some n) :
    n = .directory ∧ t.node? (kindAt base k) = some .directory
      ∧ namespaceName.utf8ByteSize ≤ maxNameBytes := by
  have hallowed := h.below [k.plural, namespaceName] n (List.cons_ne_nil _ _) hn
  generalize hl : base ++ [k.plural, namespaceName] = l at hallowed
  cases hallowed with
  | kind k' =>
    have := congrArg List.length hl
    simp [kindAt] at this
  | «namespace» hkind hsize =>
    have hl := List.append_cancel_left hl
    simp only [List.cons.injEq, and_true] at hl
    rw [plural_injective hl.1, hl.2]
    exact ⟨rfl, hkind, hsize⟩
  | object hnamespace hkept =>
    have := congrArg List.length hl
    simp [place] at this

/-- **In the directory of a namespace are files of objects.** -/
theorem node?_file (h : Layout root base t) {file : String}
    (hn : t.node? (namespaceAt base k namespaceName ++ [file]) = some n) :
    ∃ name text, file = fileName name ∧ n = .file text
      ∧ Kept root ⟨k, namespaceName, name⟩ text
      ∧ t.node? (namespaceAt base k namespaceName) = some .directory := by
  rw [namespaceAt, List.append_assoc] at hn
  have hallowed := h.below ([k.plural, namespaceName] ++ [file]) n (List.cons_ne_nil _ _) hn
  generalize hl : base ++ ([k.plural, namespaceName] ++ [file]) = l at hallowed
  cases hallowed with
  | kind k' =>
    have := congrArg List.length hl
    simp [kindAt] at this
  | «namespace» hkind hsize =>
    have := congrArg List.length hl
    simp [namespaceAt] at this
  | @object key text hnamespace hkept =>
    have hl := List.append_cancel_left hl
    simp only [List.cons_append, List.nil_append, List.cons.injEq, and_true] at hl
    obtain ⟨hkind, hns, hfile⟩ := hl
    rcases key with ⟨k', namespaceName', name⟩
    obtain rfl := plural_injective hkind
    subst hns
    exact ⟨name, text, hfile, rfl, hkept, hnamespace⟩

theorem place_eq (base : Location) (key : ObjectKey) :
    place base key = namespaceAt base key.kind key.namespaceName ++ [fileName key.name] := by
  rw [place, namespaceAt, List.append_assoc]
  rfl

/-- **What is under a key**, and what is known of it. -/
theorem kept_of_textAt (h : Layout root base t) {text : String}
    (htext : textAt base t key = some text) :
    Kept root key text ∧ t.node? (place base key) = some (.file text)
      ∧ t.node? (namespaceAt base key.kind key.namespaceName) = some .directory := by
  rw [textAt] at htext
  split at htext
  · next text' hn =>
    cases htext
    have hplace := hn
    rw [place_eq] at hplace
    obtain ⟨name, text'', hfile, hfiles, hkept, hnamespace⟩ := h.node?_file hplace
    cases hfiles
    rw [← fileName_injective hfile] at hkept
    exact ⟨hkept, hn, hnamespace⟩
  · cases htext

/-- Only a file is in the place of an object. -/
theorem node?_place (h : Layout root base t) (key : ObjectKey) :
    t.node? (place base key) = (textAt base t key).map .file := by
  cases hn : t.node? (place base key) with
  | none => rw [textAt, hn, Option.map_none]
  | some n =>
    have hplace := hn
    rw [place_eq] at hplace
    obtain ⟨name, text, -, rfl, -, -⟩ := h.node?_file hplace
    rw [textAt, hn, Option.map_some]

/-! ### Changing a tree -/

/-- Putting something allowed in the place of nothing, or of a file. -/
theorem put (h : Layout root base t) {l : Location} (hl : l ≠ [])
    (hfree : t.node? l ≠ some .directory) (hnew : Allowed root base t l n) :
    Layout root base (t.put l n) := by
  have hkeeps : t.Keeps (t.put l n) := keeps_put hl hfree n
  refine ⟨h.leads.of_keeps hkeeps, fun l' n' hl' hn' => ?_⟩
  rw [node?_put t hl] at hn'
  split at hn'
  · next heq =>
    cases hn'
    rw [heq]
    exact hnew.of_keeps hkeeps
  · exact (h.below l' n' hl' hn').of_keeps hkeeps

/-- Removing the file of an object. -/
theorem remove (h : Layout root base t) {text : String} (htext : textAt base t key = some text) :
    Layout root base (t.remove (place base key)) := by
  have hplace := (h.kept_of_textAt htext).2.1
  have hkeeps : t.Keeps (t.remove (place base key)) :=
    keeps_remove (place_ne_nil _ _) fun hdirectory => by cases hplace.symm.trans hdirectory
  refine ⟨h.leads.of_keeps hkeeps, fun l' n' hl' hn' => ?_⟩
  rw [node?_remove t (place_ne_nil _ _)] at hn'
  split at hn'
  · cases hn'
  · exact (h.below l' n' hl' hn').of_keeps hkeeps

/-! ### Operations on a tree -/

/-- From the root to a namespace: there is its directory, or the way ends before it. -/
theorem toNamespace_cases (h : Layout root base t) (k : Kind)
    (hnamespace : Naming.isStorable namespaceName = true) :
    ((t.enter (kindAt base k) >>= fun _ => step namespaceName (kindAt base k))
          = .ok (namespaceAt base k namespaceName)
        ∧ namespaceName.utf8ByteSize ≤ maxNameBytes)
      ∨ ∃ e, (t.enter (kindAt base k) >>= fun _ => step namespaceName (kindAt base k)) = .error e
        ∧ t.node? (namespaceAt base k namespaceName) ≠ some .directory
        ∧ (namespaceName.utf8ByteSize ≤ maxNameBytes → e = .notFound) := by
  obtain ⟨hname, hdot, hup⟩ := isName_of_isStorable hnamespace
  cases hkind : t.node? (kindAt base k) with
  | none =>
    refine .inr ⟨.notFound, by rw [enter, hkind]; rfl, fun hn => ?_, fun _ => rfl⟩
    cases hkind.symm.trans (h.node?_namespaceAt hn).2.1
  | some n =>
    obtain rfl := h.node?_kindAt hkind
    rw [enter_eq_ok.mpr hkind]
    show step namespaceName _ = _ ∧ _ ∨ ∃ e, step namespaceName _ = _ ∧ _
    rw [step_of_isName hname hdot hup]
    by_cases hlong : maxNameBytes < namespaceName.utf8ByteSize
    · rw [if_pos hlong]
      exact .inr ⟨.nameTooLong, rfl,
        fun hn => absurd hlong (Nat.not_lt.mpr (h.node?_namespaceAt hn).2.2),
        fun hsize => absurd hlong (Nat.not_lt.mpr hsize)⟩
    · rw [if_neg hlong, kindAt, List.append_assoc]
      exact .inl ⟨rfl, Nat.not_lt.mp hlong⟩

/-- **The path of an object** leads to its place, or fails. If it fails, nothing is under the
key, and if the tree can keep the key, there is no directory for it. -/
theorem locate_cases (h : Layout root base t) (hkey : Naming.checkKey key = .ok ()) :
    (t.locate (path root key) = .ok (place base key) ∧ Keepable root key
        ∧ t.node? (namespaceAt base key.kind key.namespaceName) = some .directory)
      ∨ ∃ e, t.locate (path root key) = .error e ∧ textAt base t key = none
        ∧ (Keepable root key → e = .notFound
          ∧ t.node? (namespaceAt base key.kind key.namespaceName) ≠ some .directory) := by
  obtain ⟨hnamespace, hname⟩ := checkKey_eq_ok.mp hkey
  obtain ⟨hfile, hdot, hup⟩ := isName_fileName (isName_of_isStorable hname).1
  -- the key has no text if it cannot be kept, and none if its directory is missing
  have hlost (hnot : ¬ Keepable root key) : textAt base t key = none :=
    Option.eq_none_iff_forall_ne_some.mpr fun _ htext =>
      hnot (h.kept_of_textAt htext).1.keepable
  have hmissing (hnot : t.node? (namespaceAt base key.kind key.namespaceName) ≠ some .directory) :
      textAt base t key = none :=
    Option.eq_none_iff_forall_ne_some.mpr fun _ htext => hnot (h.kept_of_textAt htext).2.2
  cases hpath : checkPath (path root key) with
  | error e =>
    have hnot : ¬ Keepable root key := fun hk => by cases hpath.symm.trans hk.1
    exact .inr ⟨e, by rw [locate, hpath]; rfl, hlost hnot, fun hk => absurd hk hnot⟩
  | ok _ =>
    rw [locate_path h.leads hkey hpath]
    rcases h.toNamespace_cases key.kind hnamespace with ⟨hto, hsize⟩ | ⟨e, hto, hnot, he⟩
    · rw [hto]
      show t.follow [fileName key.name] _ = _ ∧ _
        ∨ ∃ e, t.follow [fileName key.name] _ = _ ∧ _
      rw [follow_singleton]
      cases hn : t.node? (namespaceAt base key.kind key.namespaceName) with
      | none =>
        refine .inr ⟨.notFound, by rw [enter, hn]; rfl, hmissing (by simp [hn]), fun _ => ?_⟩
        exact ⟨rfl, fun h => by cases h⟩
      | some n =>
        obtain rfl := (h.node?_namespaceAt hn).1
        rw [enter_eq_ok.mpr hn]
        show step (fileName key.name) _ = _ ∧ _ ∨ ∃ e, step (fileName key.name) _ = _ ∧ _
        rw [step_of_isName hfile hdot hup]
        by_cases hlong : maxNameBytes < (fileName key.name).utf8ByteSize
        · have hnot : ¬ Keepable root key := fun hk => absurd hlong (Nat.not_lt.mpr hk.2.2)
          rw [if_pos hlong]
          exact .inr ⟨.nameTooLong, rfl, hlost hnot, fun hk => absurd hk hnot⟩
        · rw [if_neg hlong, place_eq]
          exact .inl ⟨rfl, ⟨hpath, hsize, Nat.not_lt.mp hlong⟩, rfl⟩
    · rw [hto]
      exact .inr ⟨e, rfl, hmissing hnot, fun hk => ⟨he hk.2.1, hnot⟩⟩

/-- **Reading the file of an object.** -/
theorem read_of_locate {path : String} {l : Location} (hlocate : t.locate path = .ok l) :
    t.read path = match t.node? l with
      | none => .error .notFound
      | some .directory => .error .isADirectory
      | some (.file text) => .ok text := by
  rw [FileTree.read, hlocate]
  rfl

theorem read_cases (h : Layout root base t) (hkey : Naming.checkKey key = .ok ()) :
    (∃ text, textAt base t key = some text ∧ t.read (path root key) = .ok text)
      ∨ ∃ e, textAt base t key = none ∧ t.read (path root key) = .error e
        ∧ (Keepable root key → e = .notFound) := by
  rcases h.locate_cases hkey with ⟨hlocate, -⟩ | ⟨e, hlocate, hnone, he⟩
  · have hread := read_of_locate hlocate
    rw [h.node?_place] at hread
    cases htext : textAt base t key with
    | none =>
      rw [htext] at hread
      exact .inr ⟨_, rfl, hread, fun _ => rfl⟩
    | some text =>
      rw [htext] at hread
      exact .inl ⟨text, rfl, hread⟩
  · exact .inr ⟨e, hnone, by rw [FileTree.read, hlocate]; rfl, fun hk => (he hk).1⟩

/-- **Removing the file of an object.** -/
theorem erase_of_locate {path : String} {l : Location} (hlocate : t.locate path = .ok l) :
    erase path t = match t.node? l with
      | none => Action.fail .notFound t
      | some .directory => Action.fail .isADirectory t
      | some (.file _) => Action.done () (t.remove l) := by
  rewrite [erase, hlocate]
  rfl

theorem erase_cases (h : Layout root base t) (hkey : Naming.checkKey key = .ok ()) :
    ((∃ text, textAt base t key = some text)
        ∧ erase (path root key) t = Action.done () (t.remove (place base key)))
      ∨ ∃ e, textAt base t key = none ∧ erase (path root key) t = Action.fail e t
        ∧ (Keepable root key → e = .notFound) := by
  rcases h.locate_cases hkey with ⟨hlocate, -⟩ | ⟨e, hlocate, hnone, he⟩
  · have herase := erase_of_locate hlocate
    rw [h.node?_place] at herase
    cases htext : textAt base t key with
    | none =>
      rw [htext] at herase
      exact .inr ⟨_, rfl, herase, fun _ => rfl⟩
    | some text =>
      rw [htext] at herase
      exact .inl ⟨⟨text, rfl⟩, herase⟩
  · exact .inr ⟨e, hnone, by rw [erase, hlocate], fun hk => (he hk).1⟩

/-- **Writing over the file of an object.** -/
theorem write_eq (h : Layout root base t) (hkey : Naming.checkKey key = .ok ())
    (htext : textAt base t key = some text) (text' : String) :
    write (path root key) text' t = Action.done () (t.put (place base key) (.file text')) := by
  rcases h.locate_cases hkey with ⟨hlocate, -⟩ | ⟨e, -, hnone, -⟩
  · rw [write, hlocate]
    show writeAt (place base key) text' t = _
    rw [writeAt, h.node?_place, htext]
    rfl
  · cases hnone.symm.trans htext

/-- **Writing the file of an object where there is none.** -/
theorem writeNew_cases (h : Layout root base t) (hkey : Naming.checkKey key = .ok ())
    (text' : String) :
    (textAt base t key = none ∧ Keepable root key
        ∧ t.node? (namespaceAt base key.kind key.namespaceName) = some .directory
        ∧ writeNew (path root key) text' t
          = Action.done () (t.put (place base key) (.file text')))
      ∨ ∃ e, writeNew (path root key) text' t = Action.fail e t
        ∧ ((∃ text, textAt base t key = some text) ∧ e = .alreadyExists
          ∨ textAt base t key = none ∧ (Keepable root key →
            t.node? (namespaceAt base key.kind key.namespaceName) ≠ some .directory)) := by
  rcases h.locate_cases hkey with ⟨hlocate, hkeepable, hn⟩ | ⟨e, hlocate, hnone, he⟩
  · have hwrite : writeNew (path root key) text' t
        = if (t.node? (place base key)).isSome then Action.fail .alreadyExists t
          else writeAt (place base key) text' t := by
      rw [writeNew, hlocate]
    cases htext : textAt base t key with
    | none =>
      rw [writeAt, h.node?_place, htext] at hwrite
      exact .inl ⟨rfl, hkeepable, hn, hwrite⟩
    | some text =>
      rw [h.node?_place, htext] at hwrite
      exact .inr ⟨_, hwrite, .inl ⟨⟨text, rfl⟩, rfl⟩⟩
  · exact .inr ⟨e, by rw [writeNew, hlocate], .inr ⟨hnone, fun hk => (he hk).2⟩⟩

/-- What making the directory of a namespace leaves. -/
structure Prepared (root : String) (base : Location) (t : FileTree) (k : Kind)
    (namespaceName : String) (r : Outcome FileTree FileError Unit) : Prop where
  layout : Layout root base r.state
  texts : SameTexts base t r.state
  directory : r.result = .ok () →
    r.state.node? (namespaceAt base k namespaceName) = some .directory
  possible : checkPath (FileStore.directory root k namespaceName) = .ok () →
    namespaceName.utf8ByteSize ≤ maxNameBytes → r.result = .ok ()

/-- A directory that is there, or is put in the place of nothing. -/
theorem prepare (h : Layout root base t) {t' : FileTree} {l : Location} (hl : l ≠ [])
    (hplace : ∀ key, place base key ≠ l) (hallowed : Allowed root base t l .directory)
    (ht' : t.node? l = some .directory ∧ t' = t ∨ t.node? l = none ∧ t' = t.put l .directory) :
    Layout root base t' ∧ SameTexts base t t' ∧ t'.node? l = some .directory := by
  rcases ht' with ⟨hn, rfl⟩ | ⟨hn, rfl⟩
  · exact ⟨h, fun _ => rfl, hn⟩
  · refine ⟨h.put hl (by rw [hn]; exact nofun) hallowed, fun key => textAt_of_node? ?_, ?_⟩
    · rw [node?_put t hl, if_neg (hplace key)]
    · rw [node?_put t hl, if_pos rfl]

/-- **Making the directory of a namespace** changes no text. -/
theorem makeDirectories (h : Layout root base t) (k : Kind)
    (hnamespace : Naming.isStorable namespaceName = true) :
    Prepared root base t k namespaceName
      (FileTree.makeDirectories (FileStore.directory root k namespaceName) t) := by
  obtain ⟨hname, hdot, hup⟩ := isName_of_isStorable hnamespace
  rw [makeDirectories_directory h.leads hnamespace]
  cases hcheck : checkPath (FileStore.directory root k namespaceName) with
  | error e =>
    exact ⟨h, fun _ => rfl, (fun hok => by cases hok), fun hok => by cases hcheck.symm.trans hok⟩
  | ok _ =>
    show Prepared _ _ _ _ _ (makeSteps _ _ t)
    obtain ⟨t₁, hmake₁, ht₁⟩ := makeSteps_cons [namespaceName] (step_plural k base)
      (fun text hn => by cases h.node?_kindAt hn)
    obtain ⟨h₁, htexts₁, hkind⟩ := h.prepare (by simp [kindAt]) (by simp [place, kindAt])
      (.kind k) ht₁
    rw [hmake₁]
    by_cases hlong : maxNameBytes < namespaceName.utf8ByteSize
    · have hfail : makeSteps [namespaceName] (kindAt base k) t₁
          = Action.fail .nameTooLong t₁ := by
        rw [makeSteps, step_of_isName hname hdot hup, if_pos hlong]
      rw [hfail]
      exact ⟨h₁, htexts₁, (fun hok => by cases hok),
        fun _ hsize => absurd hlong (Nat.not_lt.mpr hsize)⟩
    have hstep : step namespaceName (kindAt base k) = .ok (namespaceAt base k namespaceName) := by
      rw [step_of_isName hname hdot hup, if_neg hlong, kindAt_append]
    obtain ⟨t₂, hmake₂, ht₂⟩ := makeSteps_cons (t := t₁) [] hstep
      (fun text hn => by cases (h₁.node?_namespaceAt hn).1)
    obtain ⟨h₂, htexts₂, hdirectory⟩ := h₁.prepare (by simp [namespaceAt])
      (by simp [place, namespaceAt]) (.namespace hkind (Nat.not_lt.mp hlong)) ht₂
    rw [hmake₂]
    exact ⟨h₂, fun key => (htexts₂ key).trans (htexts₁ key), fun _ => hdirectory, fun _ _ => rfl⟩

end Layout

end FileStore

end PlanSync
