/-!
# Cutting text

Text is cut at a separator: into all its pieces, or into what stands before
and after the first separator.
-/

namespace PlanSync.Text

/-- The pieces of a character list between separators; one more piece than
there are separators, some of them perhaps empty. -/
def piecesOf (sep : Char) : List Char → List (List Char)
  | [] => [[]]
  | c :: cs =>
    if c = sep then [] :: piecesOf sep cs
    else
      match piecesOf sep cs with
      | [] => [[c]]
      | p :: ps => (c :: p) :: ps

/-- What stands before and after the first separator, if there is one. -/
def cutList? (sep : Char) : List Char → Option (List Char × List Char)
  | [] => none
  | c :: cs =>
    if c = sep then some ([], cs)
    else (cutList? sep cs).map (fun r => (c :: r.1, r.2))

/-- What stands after the first occurrence of a word, if it occurs. -/
def afterWord? (word : List Char) : List Char → Option (List Char)
  | [] => if word.isEmpty then some [] else none
  | c :: cs =>
    match word.isPrefixOf? (c :: cs) with
    | some rest => some rest
    | none => afterWord? word cs

/-- The pieces of a text between separators. -/
def pieces (sep : Char) (s : String) : List String :=
  (piecesOf sep s.toList).map String.ofList

/-- What stands before and after the first separator, if there is one. -/
def cut? (sep : Char) (s : String) : Option (String × String) :=
  (cutList? sep s.toList).map (fun r => (String.ofList r.1, String.ofList r.2))

/-- What remains after a given beginning. -/
def dropStart? (start s : String) : Option String :=
  (start.toList.isPrefixOf? s.toList).map String.ofList

/-- What remains before a given ending. -/
def dropEnd? (ending s : String) : Option String :=
  (ending.toList.isSuffixOf? s.toList).map String.ofList

/-- The texts with a separator between neighbours. -/
def join (sep : String) (xs : List String) : String := sep.intercalate xs

/-- Lines as one text, each with a line break at its end. -/
def joinLines (lines : List String) : String := String.join (lines.map (· ++ "\n"))

/-! ## Small laws -/

/-- Neither side of a cut before its separator holds the separator. -/
theorem cutList?_eq_some {sep : Char} {cs before after : List Char}
    (h : cutList? sep cs = some (before, after)) :
    cs = before ++ sep :: after ∧ sep ∉ before := by
  induction cs generalizing before with
  | nil => simp [cutList?] at h
  | cons c cs ih =>
    simp only [cutList?] at h
    split at h
    · next hc =>
      simp only [Option.some.injEq, Prod.mk.injEq] at h
      obtain ⟨rfl, rfl⟩ := h
      simp [hc]
    · next hc =>
      obtain ⟨⟨b, a⟩, hb, he⟩ := Option.map_eq_some_iff.mp h
      simp only [Prod.mk.injEq] at he
      obtain ⟨rfl, rfl⟩ := he
      obtain ⟨rfl, hm⟩ := ih hb
      exact ⟨rfl, by simp [hm, Ne.symm hc]⟩

end PlanSync.Text
