import Mathlib.Data.List.Basic
import PlanSync.Text.Cut

/-!
# Where a text is cut

What remains before an ending, or after a beginning, is what was put there. A text that is
put together from parts is cut between them again: pieces end where a separator was put
(`Text.pieces_join`), a first separator is found behind what holds none, a last one before what
holds none (`Text.append_separator_inj`), and a word is found behind what does not hold its
first character.
-/

namespace PlanSync.Text

/-! ## Beginnings and endings -/

/-- **What remains after a beginning** is what was put after it. -/
theorem dropStart?_eq_some_iff {start s rest : String} :
    dropStart? start s = some rest ↔ s = start ++ rest := by
  unfold dropStart?
  rw [Option.map_eq_some_iff, ← String.toList_inj, String.toList_append]
  simp only [List.isPrefixOf?_eq_some_iff_append_eq]
  constructor
  · rintro ⟨cs, h, rfl⟩
    rw [← h, String.toList_ofList]
  · exact fun h => ⟨rest.toList, h.symm, String.ofList_toList⟩

/-- **What remains before an ending** is what was put before it. -/
theorem dropEnd?_eq_some_iff {ending s rest : String} :
    dropEnd? ending s = some rest ↔ s = rest ++ ending := by
  unfold dropEnd?
  rw [Option.map_eq_some_iff, ← String.toList_inj, String.toList_append]
  simp only [List.isSuffixOf?_eq_some_iff_append_eq]
  constructor
  · rintro ⟨cs, h, rfl⟩
    rw [← h, String.toList_ofList]
  · exact fun h => ⟨rest.toList, h.symm, String.ofList_toList⟩

/-! ## Pieces -/

theorem piecesOf_eq_splitOn (sep : Char) (cs : List Char) : piecesOf sep cs = cs.splitOn sep := by
  induction cs with
  | nil => rw [piecesOf, List.splitOn_nil]
  | cons c cs ih =>
    rw [piecesOf, List.splitOn_cons_eq_if_modifyHead, ih]
    by_cases h : c = sep
    · rw [if_pos h, if_pos (beq_iff_eq.mpr h)]
    · rw [if_neg h, if_neg (fun h' => h (beq_iff_eq.mp h'))]
      cases hp : cs.splitOn sep with
      | nil => exact absurd hp (List.splitOn_ne_nil sep cs)
      | cons p ps => rfl

/-- There is always a piece. -/
theorem piecesOf_ne_nil (sep : Char) (cs : List Char) : piecesOf sep cs ≠ [] := by
  rw [piecesOf_eq_splitOn]
  exact List.splitOn_ne_nil sep cs

/-- **Cutting loses nothing.** -/
theorem intercalate_piecesOf (sep : Char) (cs : List Char) :
    List.intercalate [sep] (piecesOf sep cs) = cs := by
  rw [piecesOf_eq_splitOn, List.intercalate_splitOn]

/-- Cutting a text at a separator cuts both sides. -/
theorem piecesOf_append_cons (sep : Char) (cs ds : List Char) :
    piecesOf sep (cs ++ sep :: ds) = piecesOf sep cs ++ piecesOf sep ds := by
  simp only [piecesOf_eq_splitOn, List.splitOn_append_cons_self]

/-- A text without a separator is one piece. -/
theorem piecesOf_of_not_mem {sep : Char} {cs : List Char} (h : sep ∉ cs) :
    piecesOf sep cs = [cs] := by
  rw [piecesOf_eq_splitOn, List.splitOn_eq_singleton h]

/-- A piece holds no separator. -/
theorem not_mem_of_mem_piecesOf {sep : Char} {cs p : List Char} (h : p ∈ piecesOf sep cs) :
    sep ∉ p := by
  induction cs generalizing p with
  | nil =>
    rw [List.mem_singleton.mp h]
    exact List.not_mem_nil
  | cons c cs ih =>
    rw [piecesOf] at h
    by_cases hc : c = sep
    · rw [if_pos hc] at h
      cases h with
      | head => exact List.not_mem_nil
      | tail _ h => exact ih h
    · rw [if_neg hc] at h
      cases hp : piecesOf sep cs with
      | nil => exact absurd hp (piecesOf_ne_nil sep cs)
      | cons q qs =>
        rw [hp] at h ih
        cases h with
        | head =>
          rw [List.mem_cons, not_or]
          exact ⟨Ne.symm hc, ih List.mem_cons_self⟩
        | tail _ h => exact ih (List.mem_cons_of_mem _ h)

theorem not_mem_of_mem_pieces {sep : Char} {s p : String} (h : p ∈ pieces sep s) :
    sep ∉ p.toList := by
  obtain ⟨cs, hcs, rfl⟩ := List.mem_map.mp h
  rw [String.toList_ofList]
  exact not_mem_of_mem_piecesOf hcs

/-- A text without the separator is its only piece. -/
theorem pieces_eq_singleton {sep : Char} {s : String} (h : sep ∉ s.toList) :
    pieces sep s = [s] := by
  rw [pieces, piecesOf_of_not_mem h, List.map_singleton, String.ofList_toList]

/-! ## Joined parts -/

/-- **Joining loses nothing**, if no text holds the separator. -/
theorem pieces_join {sep : Char} {xs : List String} (hne : xs ≠ [])
    (h : ∀ x ∈ xs, sep ∉ x.toList) : pieces sep (join (String.singleton sep) xs) = xs := by
  rw [pieces, join, String.toList_intercalate, piecesOf_eq_splitOn, String.toList_singleton,
    List.splitOn_intercalate sep ?_ ?_, List.map_map]
  · exact (List.map_congr_left fun x _ => String.ofList_toList).trans (List.map_id _)
  · intro cs hcs
    obtain ⟨x, hx, rfl⟩ := List.mem_map.mp hcs
    exact h x hx
  · exact fun hnil => hne (List.map_eq_nil_iff.mp hnil)

theorem piecesOf_intercalate (sep : Char) {xs : List (List Char)} (hne : xs ≠ []) :
    piecesOf sep (List.intercalate [sep] xs) = xs.flatMap (piecesOf sep) := by
  induction xs with
  | nil => exact absurd rfl hne
  | cons x xs ih =>
    cases xs with
    | nil => rw [List.intercalate_singleton, List.flatMap_singleton]
    | cons y ys =>
      rw [List.flatMap_cons, ← ih (List.cons_ne_nil y ys), List.intercalate_cons_cons,
        List.append_assoc, List.singleton_append, piecesOf_append_cons]

/-- **Cutting a joined text** gives the pieces of its parts, in their order. -/
theorem pieces_join_eq_flatMap (sep : Char) {xs : List String} (hne : xs ≠ []) :
    pieces sep (join (String.singleton sep) xs) = xs.flatMap (pieces sep) := by
  rw [pieces, join, String.toList_intercalate, String.toList_singleton,
    piecesOf_intercalate sep (fun hnil => hne (List.map_eq_nil_iff.mp hnil)),
    List.map_flatMap, List.flatMap_map]
  rfl

section Parts

variable {sep c : Char} {xs : List Char} {xss : List (List Char)}

/-- Joining puts a separator before each part but the first. -/
theorem intercalate_cons (sep : Char) (xs : List Char) (xss : List (List Char)) :
    List.intercalate [sep] (xs :: xss) = xs ++ (xss.map (sep :: ·)).flatten := by
  induction xss generalizing xs with
  | nil => rw [List.intercalate_singleton, List.map_nil, List.flatten_nil, List.append_nil]
  | cons ys yss ih =>
    rw [List.intercalate_cons_cons, ih, List.map_cons, List.flatten_cons, List.append_assoc,
      List.singleton_append, List.cons_append]

/-- What stands in joined parts is a separator or stands in a part. -/
theorem mem_intercalate (sep : Char) (h : c ∈ List.intercalate [sep] xss) :
    c = sep ∨ ∃ xs ∈ xss, c ∈ xs := by
  cases xss with
  | nil => cases h
  | cons xs xss =>
    rw [intercalate_cons, List.mem_append, List.mem_flatten] at h
    rcases h with h | ⟨_, hmem, h⟩
    · exact .inr ⟨xs, List.mem_cons_self, h⟩
    · obtain ⟨ys, hys, rfl⟩ := List.mem_map.mp hmem
      rcases List.mem_cons.mp h with rfl | h
      · exact .inl rfl
      · exact .inr ⟨ys, List.mem_cons_of_mem xs hys, h⟩

/-- Every character is a separator or stands in a piece. -/
theorem mem_piecesOf_of_mem (sep : Char) (h : c ∈ xs) :
    c = sep ∨ ∃ p ∈ piecesOf sep xs, c ∈ p := by
  rw [← intercalate_piecesOf sep xs] at h
  exact mem_intercalate sep h

/-- What holds no separator stands before a first piece. -/
theorem exists_piecesOf_append (h : sep ∉ xs) (ys : List Char) :
    ∃ p ps, piecesOf sep (xs ++ ys) = (xs ++ p) :: ps := by
  induction xs with
  | nil => exact List.exists_cons_of_ne_nil (piecesOf_ne_nil sep ys)
  | cons x xs ih =>
    rw [List.mem_cons, not_or] at h
    obtain ⟨p, ps, hp⟩ := ih h.2
    exact ⟨p, ps, by rw [List.cons_append, piecesOf, if_neg (Ne.symm h.1), hp]; rfl⟩

/-! ## The first separator -/

/-- The first separator stands behind what holds none. -/
theorem cutList?_append_cons (h : sep ∉ xs) (ys : List Char) :
    cutList? sep (xs ++ sep :: ys) = some (xs, ys) := by
  induction xs with
  | nil => rw [List.nil_append, cutList?, if_pos rfl]
  | cons x xs ih =>
    rw [List.mem_cons, not_or] at h
    rw [List.cons_append, cutList?, if_neg (Ne.symm h.1), ih h.2, Option.map_some]

theorem cut?_append {before : String} (h : sep ∉ before.toList) (after : String) :
    cut? sep (before ++ String.singleton sep ++ after) = some (before, after) := by
  rw [cut?, String.toList_append, String.toList_append, String.toList_singleton, List.append_assoc,
    List.singleton_append, cutList?_append_cons h, Option.map_some, String.ofList_toList,
    String.ofList_toList]

/-- What stands before the first separator holds what does not come behind it. -/
theorem mem_of_cut?_eq_some {s before after : String} {ys : List Char}
    (h : cut? sep s = some (before, after)) (hs : s.toList = xs ++ c :: ys) (hsep : sep ∉ xs)
    (hc : c ≠ sep) : c ∈ before.toList := by
  obtain ⟨⟨cs, ds⟩, hcut, hparts⟩ := Option.map_eq_some_iff.mp h
  cases hparts
  rw [String.toList_ofList]
  have heq := hs.symm.trans (cutList?_eq_some hcut).1
  rcases List.append_eq_append_iff.mp heq with ⟨as, rfl, has⟩ | ⟨as, rfl, has⟩
  · cases as with
    | nil => exact absurd (List.cons.inj has).1 hc
    | cons a as =>
      rw [(List.cons.inj has).1]
      exact List.mem_append_right _ List.mem_cons_self
  · cases as with
    | nil => exact absurd (List.cons.inj has).1.symm hc
    | cons a as =>
      rw [← (List.cons.inj has).1] at hsep
      exact absurd (List.mem_append_right _ List.mem_cons_self) hsep

/-! ## The last separator -/

/-- What follows the last separator is told from the whole. -/
theorem eq_of_append_cons {ys ps qs : List Char} (hp : sep ∉ ps) (hq : sep ∉ qs)
    (h : xs ++ sep :: ps = ys ++ sep :: qs) : ps = qs := by
  rcases List.append_eq_append_iff.mp h with ⟨as, -, has⟩ | ⟨as, -, has⟩
  · cases as with
    | nil => exact (List.cons.inj has).2
    | cons a as => exact absurd ((List.cons.inj has).2 ▸ List.mem_append_cons_self) hp
  · cases as with
    | nil => exact (List.cons.inj has).2.symm
    | cons a as => exact absurd ((List.cons.inj has).2 ▸ List.mem_append_cons_self) hq

/-- **A text is cut at its last separator in one way.** -/
theorem append_separator_inj {before before' after after' : String} (h : sep ∉ after.toList)
    (h' : sep ∉ after'.toList) :
    before ++ String.singleton sep ++ after = before' ++ String.singleton sep ++ after'
      ↔ before = before' ∧ after = after' := by
  refine ⟨fun heq => ?_, fun ⟨hbefore, hafter⟩ => hbefore ▸ hafter ▸ rfl⟩
  have hlists := congrArg String.toList heq
  simp only [String.toList_append, String.toList_singleton, List.append_assoc] at hlists
  obtain rfl := String.toList_inj.mp (eq_of_append_cons h h' hlists)
  exact ⟨String.toList_inj.mp (List.append_cancel_right hlists), rfl⟩

/-! ## Words -/

/-- A word is not found before its first character is. -/
theorem afterWord?_append (word : List Char) (h : c ∉ xs) (ys : List Char) :
    afterWord? (c :: word) (xs ++ ys) = afterWord? (c :: word) ys := by
  induction xs with
  | nil => rfl
  | cons x xs ih =>
    rw [List.mem_cons, not_or] at h
    have hnot : (c :: word).isPrefixOf? (x :: (xs ++ ys)) = none :=
      Option.eq_none_iff_forall_ne_some.mpr fun rest hrest =>
        h.1 (List.cons.inj (List.isPrefixOf?_eq_some_iff_append_eq.mp hrest)).1
    rw [List.cons_append, afterWord?, hnot]
    exact ih h.2

/-- A word is found behind what does not hold its first character. -/
theorem afterWord?_word (word : List Char) (h : c ∉ xs) (ys : List Char) :
    afterWord? (c :: word) (xs ++ (c :: word ++ ys)) = some ys := by
  have hprefix : (c :: word).isPrefixOf? (c :: (word ++ ys)) = some ys :=
    List.isPrefixOf?_eq_some_iff_append_eq.mpr rfl
  rw [afterWord?_append word h, List.cons_append, afterWord?, hprefix]

/-- A word is not found where its first character stands once, and other text behind it. -/
theorem afterWord?_eq_none {word ys : List Char} (hxs : c ∉ xs) (hys : c ∉ ys)
    (hword : ¬ word <+: ys) : afterWord? (c :: word) (xs ++ c :: ys) = none := by
  have hnot : (c :: word).isPrefixOf? (c :: ys) = none :=
    Option.eq_none_iff_forall_ne_some.mpr fun rest hrest =>
      hword ⟨rest, (List.cons.inj (List.isPrefixOf?_eq_some_iff_append_eq.mp hrest)).2⟩
  have hrest : afterWord? (c :: word) (ys ++ []) = none := afterWord?_append word hys []
  rw [List.append_nil] at hrest
  rw [afterWord?_append word hxs, afterWord?, hnot]
  exact hrest

end Parts

end PlanSync.Text
