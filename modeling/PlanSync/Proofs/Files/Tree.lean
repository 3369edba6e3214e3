import PlanSync.Files.Tree
import PlanSync.Proofs.Action
import PlanSync.Proofs.Answer
import PlanSync.Proofs.SortedMap
import PlanSync.Proofs.Text.Cut

/-!
# Paths into a tree

Names that are joined to a path are further steps on the way that the path leads
(`FileTree.Leads.exists_steps_join`). It makes no difference how the path is written: it may
be empty, end in a slash, or pass through dots.

Where a path leads depends on directories only, so it stays so as long as these stay
(`FileTree.Leads.of_keeps`). Once the directories of a path have been made, it leads to the last
of them (`FileTree.leads_of_makeDirectories`), if all names in the tree are names that steps can
lead to (`FileTree.Named`).
-/

namespace PlanSync

/-! ## Names -/

namespace Path

/-- **A name**: a text that is one step of a path, and is not empty. -/
def IsName (p : String) : Prop := p ≠ "" ∧ '/' ∉ p.toList

variable {base p q : String}

theorem steps_of_isName (h : IsName p) : steps p = [p] := Text.pieces_eq_singleton h.2

theorem toList_ne_nil (h : IsName p) : p.toList ≠ [] := fun hnil =>
  h.1 (String.toList_eq_nil_iff.mp hnil)

theorem isAbsolute_of_isName (h : IsName p) : isAbsolute p = false := by
  rw [isAbsolute, decide_eq_false_iff_not]
  intro hhead
  exact h.2 (List.mem_of_mem_head? hhead)

/-- The three ways to join a name. -/
theorem join_of_isName (base : String) (h : IsName p) :
    (base = "" ∧ join base p = p)
      ∨ (∃ cs, base.toList = cs ++ ['/'] ∧ join base p = base ++ p)
      ∨ (base ≠ "" ∧ join base p = base ++ "/" ++ p) := by
  rw [join, isAbsolute_of_isName h, if_neg Bool.false_ne_true]
  by_cases hempty : base = ""
  · subst hempty
    exact .inl ⟨rfl, by simp⟩
  by_cases hslash : base.toList.getLast? = some '/'
  · obtain ⟨cs, hcs⟩ := List.getLast?_eq_some_iff.mp hslash
    exact .inr (.inl ⟨cs, hcs, by simp [hslash]⟩)
  · exact .inr (.inr ⟨hempty, by simp [hempty, hslash]⟩)

/-- **A name that is joined is a further step**, but for an empty step before it. -/
theorem steps_join (base : String) (h : IsName p) :
    (∃ xs, steps base = xs ++ [""] ∧ steps (join base p) = xs ++ [p])
      ∨ steps (join base p) = steps base ++ [p] := by
  have hsteps := steps_of_isName h
  rcases join_of_isName base h with ⟨hbase, hjoin⟩ | ⟨cs, hcs, hjoin⟩ | ⟨-, hjoin⟩
  · exact .inl ⟨[], by rw [hbase]; rfl, by rw [hjoin, hsteps, List.nil_append]⟩
  · refine .inl ⟨(Text.piecesOf '/' cs).map String.ofList, ?_, ?_⟩
    · rw [steps, Text.pieces, hcs, Text.piecesOf_append_cons, List.map_append]
      rfl
    · rw [hjoin, steps, Text.pieces, String.toList_append, hcs, List.append_assoc,
        List.singleton_append, Text.piecesOf_append_cons, List.map_append, ← Text.pieces, ← steps,
        hsteps]
  · refine .inr ?_
    rw [hjoin, steps, Text.pieces, String.toList_append, String.toList_append, List.append_assoc]
    rw [show "/".toList ++ p.toList = '/' :: p.toList from rfl, Text.piecesOf_append_cons,
      List.map_append, ← Text.pieces, ← Text.pieces, ← steps, ← steps, hsteps]

theorem isAbsolute_join (h : IsName p) : isAbsolute (join base p) = isAbsolute base := by
  rcases join_of_isName base h with ⟨hbase, hjoin⟩ | ⟨cs, hcs, hjoin⟩ | ⟨hne, hjoin⟩
  · rw [hjoin, hbase, isAbsolute_of_isName h]
    rfl
  · rw [hjoin, isAbsolute, isAbsolute, String.toList_append, hcs]
    cases cs <;> rfl
  · rw [hjoin, isAbsolute, isAbsolute, String.toList_append, String.toList_append]
    cases hbase : base.toList with
    | nil => exact absurd (String.toList_eq_nil_iff.mp hbase) hne
    | cons c cs => rfl

theorem join_ne_empty (h : IsName p) : join base p ≠ "" := by
  intro hempty
  have hnil := String.toList_eq_nil_iff.mpr hempty
  rcases join_of_isName base h with ⟨-, hjoin⟩ | ⟨_, -, hjoin⟩ | ⟨-, hjoin⟩
  all_goals
    rw [hjoin] at hnil
    simp [toList_ne_nil h] at hnil

/-- What is joined is the path, or stands behind the base and at most a slash. -/
theorem exists_join_eq (base p : String) :
    join base p = p ∨ ∃ slash ∈ ["", "/"], join base p = base ++ slash ++ p := by
  rw [join]
  split
  · exact .inl rfl
  · split
    · exact .inr ⟨"", by decide, by rw [String.append_empty]⟩
    · exact .inr ⟨"/", by decide, rfl⟩

theorem utf8ByteSize_join_le (base p : String) :
    (join base p).utf8ByteSize ≤ base.utf8ByteSize + 1 + p.utf8ByteSize := by
  have hslash : ∀ slash ∈ ["", "/"], slash.utf8ByteSize ≤ 1 := by decide
  rcases exists_join_eq base p with hjoin | ⟨slash, hmem, hjoin⟩
  · rw [hjoin]
    omega
  · have hsize := hslash slash hmem
    rw [hjoin, String.utf8ByteSize_append, String.utf8ByteSize_append]
    omega

/-- There are no other characters but slashes in what is joined. -/
theorem not_mem_join {c : Char} (hc : c ≠ '/') (hbase : c ∉ base.toList) (hp : c ∉ p.toList) :
    c ∉ (join base p).toList := by
  rcases exists_join_eq base p with hjoin | ⟨slash, hmem, hjoin⟩
  · rwa [hjoin]
  · rw [hjoin, String.toList_append, String.toList_append, List.mem_append, List.mem_append]
    have hslash : c ∉ slash.toList := by
      rcases List.mem_pair.mp hmem with rfl | rfl
      · exact List.not_mem_nil
      · exact fun h => hc (List.mem_singleton.mp h)
    tauto

/-- A second name is one more step. -/
theorem steps_join_join (h : IsName p) (hq : IsName q) :
    steps (join (join base p) q) = steps (join base p) ++ [q] := by
  rcases steps_join (join base p) hq with ⟨xs, hxs, -⟩ | hsteps
  · rcases steps_join base h with ⟨ys, -, hys⟩ | hys
    · exact absurd (List.append_inj_right' (hys.symm.trans hxs) rfl)
        (fun heq => h.1 (List.singleton_inj.mp heq))
    · exact absurd (List.append_inj_right' (hys.symm.trans hxs) rfl)
        (fun heq => h.1 (List.singleton_inj.mp heq))
  · exact hsteps

/-- **A name of a file**: a name that is none of the two that mean a place in a path. -/
def IsEntry (p : String) : Prop := IsName p ∧ p ≠ "." ∧ p ≠ ".."

/-- What a path ends in without its dots at the end. -/
theorem steps_eq_splitDots (path : String) :
    ∃ idle, steps path = (splitDots path).1 ++ idle ∧ (∀ s ∈ idle, s = "" ∨ s = ".")
      ∧ ((splitDots path).2 = true → idle ≠ []) := by
  let isIdle (s : String) : Bool := s = "" || s = "."
  refine ⟨((steps path).reverse.takeWhile isIdle).reverse, ?_, fun s hs => ?_, fun hdot hnil => ?_⟩
  · rw [← List.reverse_inj, List.reverse_append, List.reverse_reverse]
    exact ((List.takeWhile_append_dropWhile).symm).trans
      (congrArg _ (List.reverse_reverse _).symm)
  · have hidle := List.all_eq_true.mp List.all_takeWhile s (List.mem_reverse.mp hs)
    simpa [isIdle] using hidle
  · rw [List.reverse_eq_nil_iff] at hnil
    have hdot' : ((steps path).reverse.takeWhile isIdle).contains "." = true := hdot
    rw [hnil] at hdot'
    cases hdot'

/-- A path that ends in a name ends in no dots. -/
theorem splitDots_eq {path : String} {xs : List String} (h : steps path = xs ++ [p])
    (hempty : p ≠ "") (hdot : p ≠ ".") : splitDots path = (steps path, false) := by
  have hidle : (decide (p = "") || decide (p = ".")) = false := by simp [hempty, hdot]
  rw [splitDots, h, List.reverse_append, List.reverse_singleton, List.singleton_append]
  simp [hidle]

end Path

namespace FileTree

variable {t t' : FileTree} {l l' : Location} {name path : String}

/-! ## What is where -/

theorem node?_put (t : FileTree) (hl : l ≠ []) (n : FileNode) (l' : Location) :
    (t.put l n).node? l' = if l' = l then some n else t.node? l' := by
  rw [node?, node?, put]
  by_cases hempty : l' = []
  · subst hempty
    rw [if_neg (Ne.symm hl)]
    rfl
  · have hfalse : l'.isEmpty = false := List.isEmpty_eq_false_iff.mpr hempty
    rw [hfalse, if_neg Bool.false_ne_true, if_neg Bool.false_ne_true]
    exact SortedMap.get?_insert ..

theorem node?_remove (t : FileTree) (hl : l ≠ []) (l' : Location) :
    (t.remove l).node? l' = if l' = l then none else t.node? l' := by
  rw [node?, node?, remove]
  by_cases hempty : l' = []
  · subst hempty
    rw [if_neg (Ne.symm hl)]
    rfl
  · have hfalse : l'.isEmpty = false := List.isEmpty_eq_false_iff.mpr hempty
    rw [hfalse, if_neg Bool.false_ne_true, if_neg Bool.false_ne_true]
    exact SortedMap.get?_erase ..

/-! ## Following -/

theorem enter_eq_ok : t.enter l = .ok () ↔ t.node? l = some .directory := by
  rw [enter]
  cases t.node? l with
  | none => exact ⟨(fun h => by cases h), (fun h => by cases h)⟩
  | some n =>
    cases n with
    | file text => exact ⟨(fun h => by cases h), (fun h => by cases h)⟩
    | directory => exact ⟨fun _ => rfl, fun _ => rfl⟩

theorem enter_congr (h : t'.node? l = t.node? l) : t'.enter l = t.enter l := by
  rw [enter, enter, h]

/-- A path that can be followed has no NUL character and is not too long. -/
theorem checkPath_eq_ok_iff : checkPath path = .ok ()
    ↔ '\x00' ∉ path.toList ∧ path.utf8ByteSize < maxPathBytes := by
  rw [checkPath]
  split
  · next hnul => simp [List.contains_iff_mem.mp hnul]
  · next hnul =>
    have hnul : '\x00' ∉ path.toList := fun hmem => hnul (List.contains_iff_mem.mpr hmem)
    split
    · next hlong => simp [hnul, hlong]
    · next hlong => simp [hnul, Nat.not_le.mp hlong]

/-- Without a NUL character a path can only be too long. -/
theorem eq_nameTooLong_of_checkPath {e : FileError} (hnul : '\x00' ∉ path.toList)
    (h : checkPath path = .error e) : e = .nameTooLong := by
  rw [checkPath, if_neg fun hmem => hnul (List.contains_iff_mem.mp hmem)] at h
  split at h
  · exact (Except.error.inj h).symm
  · cases h

theorem follow_append (t : FileTree) (xs ys : List String) (l : Location) :
    t.follow (xs ++ ys) l = t.follow xs l >>= t.follow ys := by
  induction xs generalizing l with
  | nil => rfl
  | cons x xs ih =>
    rw [List.cons_append, follow, follow]
    cases t.enter l with
    | error e => rfl
    | ok _ =>
      show (step x l >>= t.follow (xs ++ ys)) = (step x l >>= t.follow xs) >>= t.follow ys
      cases step x l with
      | error e => rfl
      | ok l => exact ih l

theorem follow_singleton (t : FileTree) (name : String) (l : Location) :
    t.follow [name] l = t.enter l >>= fun _ => step name l := by
  rw [follow]
  cases t.enter l with
  | error e => rfl
  | ok _ =>
    show (step name l >>= fun l => .ok l) = step name l
    cases step name l <;> rfl

/-- **A path leads to a directory.** -/
def Leads (t : FileTree) (path : String) (l : Location) : Prop :=
  t.follow (Path.steps path) (t.start path) = .ok l ∧ t.node? l = some .directory

/-- All directories of a tree are there in another. -/
def Keeps (t t' : FileTree) : Prop :=
  t'.workingDirectory = t.workingDirectory
    ∧ ∀ l, t.node? l = some .directory → t'.node? l = some .directory

theorem follow_of_keeps (h : t.Keeps t') {xs : List String} (hl : t.follow xs l = .ok l') :
    t'.follow xs l = .ok l' := by
  induction xs generalizing l with
  | nil => exact hl
  | cons x xs ih =>
    obtain ⟨_, henter, hl⟩ := Answer.bind_eq_ok.mp hl
    obtain ⟨l'', hstep, hl⟩ := Answer.bind_eq_ok.mp hl
    rw [follow, enter_eq_ok.mpr (h.2 _ (enter_eq_ok.mp henter))]
    show (step x l >>= t'.follow xs) = _
    rw [hstep]
    exact ih hl

/-- Directories are kept if what is put is not put in the place of one. -/
theorem keeps_put (hl : l ≠ []) (h : t.node? l ≠ some .directory) (n : FileNode) :
    t.Keeps (t.put l n) := by
  refine ⟨rfl, fun l' hl' => ?_⟩
  rw [node?_put t hl, if_neg]
  · exact hl'
  · rintro rfl
    exact h hl'

/-- Directories are kept if none is removed. -/
theorem keeps_remove (hl : l ≠ []) (h : t.node? l ≠ some .directory) : t.Keeps (t.remove l) := by
  refine ⟨rfl, fun l' hl' => ?_⟩
  rw [node?_remove t hl, if_neg]
  · exact hl'
  · rintro rfl
    exact h hl'

theorem start_of_keeps (h : t.Keeps t') : t'.start path = t.start path := by
  rw [start, start, h.1]

namespace Leads

theorem of_keeps (hl : t.Leads path l) (h : t.Keeps t') : t'.Leads path l := by
  refine ⟨?_, h.2 _ hl.2⟩
  rw [start_of_keeps h]
  exact follow_of_keeps h hl.1

/-- **A joined name is a step from where the path leads.** -/
theorem exists_steps_join (hl : t.Leads path l) (hname : Path.IsName name) :
    ∃ xs, Path.steps (Path.join path name) = xs ++ [name]
      ∧ t.follow xs (t.start (Path.join path name)) = .ok l := by
  rw [start, Path.isAbsolute_join hname, ← start]
  rcases Path.steps_join path hname with ⟨xs, hxs, hsteps⟩ | hsteps
  · refine ⟨xs, hsteps, ?_⟩
    have hfollow := hl.1
    rw [hxs, follow_append] at hfollow
    obtain ⟨l', hl', hfollow⟩ := Answer.bind_eq_ok.mp hfollow
    rw [follow_singleton] at hfollow
    obtain ⟨_, -, hfollow⟩ := Answer.bind_eq_ok.mp hfollow
    cases hfollow
    exact hl'
  · exact ⟨_, hsteps, hl.1⟩

end Leads

/-! ## Making directories -/

/-- **Directories that are there need not be made.** -/
theorem makeSteps_append {xs : List String} (ys : List String) (hfollow : t.follow xs l = .ok l')
    (hl' : t.node? l' = some .directory) : makeSteps (xs ++ ys) l t = makeSteps ys l' t := by
  induction xs generalizing l with
  | nil =>
    cases hfollow
    rfl
  | cons x xs ih =>
    obtain ⟨_, -, hfollow⟩ := Answer.bind_eq_ok.mp hfollow
    obtain ⟨l'', hstep, hfollow⟩ := Answer.bind_eq_ok.mp hfollow
    have hdirectory : t.node? l'' = some .directory := by
      cases xs with
      | nil =>
        cases hfollow
        exact hl'
      | cons x' xs =>
        obtain ⟨_, henter, -⟩ := Answer.bind_eq_ok.mp hfollow
        exact enter_eq_ok.mp henter
    rw [List.cons_append, makeSteps, hstep]
    simp only [hdirectory]
    exact ih hfollow

/-- One step of making directories: the directory is there, or it is put there. -/
theorem makeSteps_of_step (names : List String) (hstep : step name l = .ok l') :
    makeSteps (name :: names) l t = match t.node? l' with
      | none => makeSteps names l' (t.put l' .directory)
      | some .directory => makeSteps names l' t
      | some (.file _) =>
        Action.fail (if names.isEmpty then .alreadyExists else .notADirectory) t := by
  rewrite [makeSteps, hstep]
  rfl

theorem makeSteps_cons (names : List String) (hstep : step name l = .ok l')
    (hfile : ∀ text, t.node? l' ≠ some (.file text)) :
    ∃ t', makeSteps (name :: names) l t = makeSteps names l' t'
      ∧ (t.node? l' = some .directory ∧ t' = t
        ∨ t.node? l' = none ∧ t' = t.put l' .directory) := by
  have hmake := makeSteps_of_step (t := t) names hstep
  cases hl' : t.node? l' with
  | none =>
    rw [hl'] at hmake
    exact ⟨_, hmake, .inr ⟨rfl, rfl⟩⟩
  | some n =>
    cases n with
    | file text => exact absurd hl' (hfile text)
    | directory =>
      rw [hl'] at hmake
      exact ⟨_, hmake, .inl ⟨rfl, rfl⟩⟩

/-- **All names in a tree are names of files**, as in any file system. -/
def Named (t : FileTree) : Prop := ∀ l n, t.node? l = some n → ∀ p ∈ l, Path.IsEntry p

theorem Named.put (h : t.Named) (hl : l ≠ []) (hentries : ∀ p ∈ l, Path.IsEntry p)
    (n : FileNode) : (t.put l n).Named := by
  intro l' n' hn'
  rw [node?_put t hl] at hn'
  split at hn'
  · next heq => exact heq ▸ hentries
  · exact h l' n' hn'

theorem Named.remove (h : t.Named) (hl : l ≠ []) : (t.remove l).Named := by
  intro l' n' hn'
  rw [node?_remove t hl] at hn'
  split at hn'
  · cases hn'
  · exact h l' n' hn'

/-- A step of a path leads to entries only. -/
theorem entries_of_step (hname : '/' ∉ name.toList) (hl : ∀ p ∈ l, Path.IsEntry p)
    (hstep : step name l = .ok l') : ∀ p ∈ l', Path.IsEntry p := by
  rw [step] at hstep
  split at hstep
  · next hidle =>
    cases hstep
    exact hl
  · next hidle =>
    split at hstep
    · cases hstep
      exact fun p hp => hl p (List.dropLast_subset l hp)
    · next hup =>
      split at hstep
      · cases hstep
      · cases hstep
        simp only [Bool.or_eq_true, decide_eq_true_eq, not_or] at hidle
        rw [List.forall_mem_append, List.forall_mem_singleton]
        exact ⟨hl, ⟨hidle.1, hname⟩, hidle.2, hup⟩

theorem Keeps.trans {t'' : FileTree} (h : t.Keeps t') (h' : t'.Keeps t'') : t.Keeps t'' :=
  ⟨h'.1.trans h.1, fun l hl => h'.2 l (h.2 l hl)⟩

/-- **Directories that were made can be passed through.** -/
theorem follow_of_makeSteps {names : List String} (hnames : ∀ name ∈ names, '/' ∉ name.toList)
    (hnamed : t.Named) (hl : t.node? l = some .directory)
    (hok : (makeSteps names l t).result = .ok ()) :
    t.Keeps (makeSteps names l t).state ∧ (makeSteps names l t).state.Named
      ∧ ∃ l', (makeSteps names l t).state.follow names l = .ok l'
        ∧ (makeSteps names l t).state.node? l' = some .directory := by
  induction names generalizing l t with
  | nil => exact ⟨⟨rfl, fun _ h => h⟩, hnamed, l, rfl, hl⟩
  | cons name names ih =>
    rw [List.forall_mem_cons] at hnames
    cases hstep : step name l with
    | error e =>
      rw [makeSteps, hstep] at hok
      cases hok
    | ok l₁ =>
      -- the rest is made on a tree in which the first directory stands
      obtain ⟨u, hmake, hkeeps, hnamed', hu⟩ : ∃ u, makeSteps (name :: names) l t
          = makeSteps names l₁ u ∧ t.Keeps u ∧ u.Named ∧ u.node? l₁ = some .directory := by
        have hmake := makeSteps_of_step (t := t) names hstep
        cases hn : t.node? l₁ with
        | none =>
          have hne : l₁ ≠ [] := by
            rintro rfl
            cases hn
          have hfree : t.node? l₁ ≠ some .directory := by
            rw [hn]
            exact nofun
          rw [hn] at hmake
          exact ⟨_, hmake, keeps_put hne hfree _,
            hnamed.put hne (entries_of_step hnames.1 (hnamed l _ hl) hstep) _,
            by rw [node?_put t hne, if_pos rfl]⟩
        | some n =>
          cases n with
          | file text =>
            rw [hmake, hn] at hok
            cases hok
          | directory =>
            rw [hn] at hmake
            exact ⟨t, hmake, ⟨rfl, fun _ h => h⟩, hnamed, hn⟩
      rw [hmake] at hok ⊢
      obtain ⟨hkeeps', hnamed'', l', hfollow, hl'⟩ := ih hnames.2 hnamed' hu hok
      refine ⟨hkeeps.trans hkeeps', hnamed'', l', ?_, hl'⟩
      rw [follow, enter_eq_ok.mpr (hkeeps'.2 l (hkeeps.2 l hl))]
      show (step name l >>= follow _ names) = _
      rw [hstep]
      exact hfollow

/-- Steps that stay where they are. -/
theorem follow_idle {idle : List String} (h : ∀ s ∈ idle, s = "" ∨ s = ".")
    (hl : t.node? l = some .directory) : t.follow idle l = .ok l := by
  induction idle with
  | nil => rfl
  | cons s idle ih =>
    rw [List.forall_mem_cons] at h
    have hstep : step s l = .ok l := by rcases h.1 with rfl | rfl <;> rfl
    rw [follow, enter_eq_ok.mpr hl]
    show (step s l >>= t.follow idle) = _
    rw [hstep]
    exact ih h.2

/-- Making directories, told by what the path is without dots at its end. -/
theorem makeDirectories_of_splitDots {names : List String} {inside : Bool} (hpath : path ≠ "")
    (hsplit : Path.splitDots path = (names, inside)) (t : FileTree) :
    makeDirectories path t = match checkPath path with
      | .error e => Action.fail e t
      | .ok _ => if inside then
            (makeSteps names.dropLast (t.start path) >>= fun _ => Action.state >>= fun t =>
              Action.ofExcept ((t.locate path).map fun _ => ())) t
          else makeSteps names (t.start path) t := by
  rw [makeDirectories, if_neg hpath, hsplit]
  cases checkPath path with
  | error e => rfl
  | ok _ => cases inside <;> rfl

/-- What making directories comes to when it succeeds: all steps of the path have been made, or
all but the last, and then the path can be followed. -/
theorem of_makeDirectories (hpath : path ≠ "")
    (hok : (makeDirectories path t).result = .ok ()) :
    ∃ names idle made, Path.steps path = names ++ idle ∧ (∀ s ∈ idle, s = "" ∨ s = ".")
      ∧ (makeSteps made (t.start path)).Leaves t (.ok ()) (makeDirectories path t).state
      ∧ (made = names ∨ made = names.dropLast ∧ idle ≠ []
        ∧ ∃ l, (makeDirectories path t).state.locate path = .ok l) := by
  obtain ⟨idle, hsteps, hidle, hne⟩ := Path.steps_eq_splitDots path
  cases hsplit : Path.splitDots path with
  | mk names inside =>
    rw [hsplit] at hsteps hne
    have hmake := makeDirectories_of_splitDots hpath hsplit t
    cases hcheck : checkPath path with
    | error e =>
      rw [hmake, hcheck] at hok
      cases hok
    | ok _ =>
      rw [hcheck] at hmake
      cases inside with
      | false =>
        rw [show makeDirectories path t = makeSteps names (t.start path) t from hmake] at hok ⊢
        exact ⟨names, idle, names, hsteps, hidle, ⟨hok, rfl⟩, .inl rfl⟩
      | true =>
        generalize hmade : makeSteps names.dropLast (t.start path) t = r at hmake
        have hleaves : (makeSteps names.dropLast (t.start path)).Leaves t r.result r.state :=
          ⟨congrArg Outcome.result hmade, congrArg Outcome.state hmade⟩
        rw [hmake] at hok ⊢
        cases hresult : r.result with
        | error e =>
          rw [hresult] at hleaves
          cases hleaves.bind_error.1.symm.trans hok
        | ok _ =>
          rw [hresult] at hleaves
          obtain ⟨hlocate, hstate⟩ : (makeSteps names.dropLast (t.start path) >>= fun _ =>
              Action.state >>= fun t => Action.ofExcept ((t.locate path).map fun _ => ())).Leaves t
              ((r.state.locate path).map fun _ => ()) r.state :=
            hleaves.bind ((Action.leaves_state _).bind (Action.leaves_ofExcept rfl _))
          obtain ⟨l, hl, -⟩ := Answer.map_eq_ok.mp (hlocate.symm.trans hok)
          refine ⟨names, idle, names.dropLast, hsteps, hidle, ?_, .inr ⟨rfl, hne rfl, l, ?_⟩⟩
          · exact ⟨hleaves.1, hleaves.2.trans hstate.symm⟩
          · exact (congrArg (locate · path) hstate).trans hl

/-- **A path to a directory that was made leads there.** -/
theorem leads_of_makeDirectories (hnamed : t.Named)
    (hstart : t.node? t.workingDirectory = some .directory)
    (hok : (makeDirectories path t).result = .ok ()) :
    (makeDirectories path t).state.Named ∧ ∃ l, (makeDirectories path t).state.Leads path l := by
  have hstart' : t.node? (t.start path) = some .directory := by
    rw [start]
    split
    · rfl
    · exact hstart
  by_cases hpath : path = ""
  · subst hpath
    exact ⟨hnamed, _, follow_idle (by decide) hstart', hstart'⟩
  obtain ⟨names, idle, made, hsteps, hidle, ⟨hmade, hstate⟩, hway⟩ := of_makeDirectories hpath hok
  have hmem : ∀ name ∈ made, name ∈ names := by
    rcases hway with rfl | ⟨rfl, -⟩
    · exact fun _ h => h
    · exact fun _ h => List.dropLast_subset names h
  have hslash : ∀ name ∈ made, '/' ∉ name.toList := fun name hname =>
    Text.not_mem_of_mem_pieces (hsteps ▸ List.mem_append_left idle (hmem name hname))
  obtain ⟨hkeeps, hnamed', l, hfollow, hl⟩ := follow_of_makeSteps hslash hnamed hstart' hmade
  rw [hstate] at hkeeps hnamed' hfollow hl
  refine ⟨hnamed', ?_⟩
  rcases hway with rfl | ⟨-, hne, l', hlocate⟩
  · refine ⟨l, ?_, hl⟩
    rw [start_of_keeps hkeeps, hsteps, follow_append, hfollow]
    exact follow_idle hidle hl
  · -- a step that stays can be made from a directory only
    obtain ⟨_, -, hlocate⟩ := Answer.bind_eq_ok.mp hlocate
    rw [if_neg hpath, hsteps, follow_append] at hlocate
    obtain ⟨l'', hfollow', hlocate⟩ := Answer.bind_eq_ok.mp hlocate
    obtain ⟨s, idle, rfl⟩ := List.exists_cons_of_ne_nil hne
    obtain ⟨_, henter, -⟩ := Answer.bind_eq_ok.mp hlocate
    have hdirectory := enter_eq_ok.mp henter
    refine ⟨l'', ?_, hdirectory⟩
    rw [hsteps, follow_append, hfollow']
    exact follow_idle hidle hdirectory

/-- Making a directory whose path ends in a name is making its steps. -/
theorem makeDirectories_eq {xs : List String} (hsteps : Path.steps path = xs ++ [name])
    (hempty : name ≠ "") (hdot : name ≠ ".") (hpath : path ≠ "") (t : FileTree) :
    makeDirectories path t =
      match checkPath path with
      | .error e => Action.fail e t
      | .ok () => makeSteps (Path.steps path) (t.start path) t := by
  rw [makeDirectories_of_splitDots hpath (Path.splitDots_eq hsteps hempty hdot)]
  rfl

end FileTree

end PlanSync
