/-!
# Differences between two lists

A list is turned into another by keeping some of its items, removing the
others and inserting new ones. The script found here is a shortest one. It is
found by cutting both lists where the forward and the backward search for a
shortest script meet, and doing the same with the parts.

Of the shortest scripts one is chosen by *settling* the inserted runs: each
moves up as far as the items before it allow, past removed runs and joining
other inserted runs on the way, and then down again. Removed runs stay.
-/

namespace PlanSync.Difference

/-- What becomes of items. -/
inductive Fate where
  | kept
  | removed
  | inserted
  deriving DecidableEq

/-- Neighbouring items with one fate. -/
structure Run (α : Type) where
  fate : Fate
  items : List α

variable {α : Type} [DecidableEq α]

/-! ## Searching for the middle -/

/-- The number of items with which both lists begin. -/
def commonStart : List α → List α → Nat
  | x :: xs, y :: ys => if x = y then commonStart xs ys + 1 else 0
  | _, _ => 0

/-- The number of items with which both lists end. -/
def commonEnd (xs ys : List α) : Nat := commonStart xs.reverse ys.reverse

/-- How far a search has come on every diagonal. Position `x` of the first
list and `y` of the second are on diagonal `x - y`. -/
structure Frontier where
  offset : Nat
  reach : Array Nat

namespace Frontier

/-- Nothing searched yet. -/
def start (size : Nat) : Frontier := ⟨size + 1, Array.replicate (2 * size + 3) 0⟩

/-- How far the search has come on a diagonal. -/
def get (f : Frontier) (k : Int) : Nat := f.reach.getD (k + f.offset).toNat 0

def set (f : Frontier) (k : Int) (x : Nat) : Frontier :=
  { f with reach := f.reach.setIfInBounds (k + f.offset).toNat x }

/-- Where the next step on a diagonal begins, after `d` changes: one item of
the first list further than the diagonal below, or one of the second further
than the diagonal above, whichever has come farther. -/
def next (f : Frontier) (d : Nat) (k : Int) : Nat :=
  if k = -(d : Int) || (k ≠ d && f.get (k - 1) < f.get (k + 1)) then f.get (k + 1)
  else f.get (k - 1) + 1

end Frontier

/-- The diagonals that `d` changes can reach, from the last. -/
def diagonals (d : Nat) : List Int :=
  (List.range (d + 1)).map fun (i : Nat) => (d : Int) - 2 * (i : Int)

/-- One direction of the search: where it starts on each diagonal, where it
gets to, and the first start at which it meets the other direction. -/
def sweep (advance : Nat → Nat → Nat) (meets : Int → Nat → Bool) (d : Nat) :
    List Int → Frontier → Option (Nat × Nat) × Frontier
  | [], f => (none, f)
  | k :: ks, f =>
    let x := f.next d k
    let y := ((x : Int) - k).toNat
    let reached := x + advance x y
    let f := f.set k reached
    if meets k reached then (some (x, y), f) else sweep advance meets d ks f

/-- Search with `d`, `d + 1`, … changes in both directions, for at most `n`
rounds, for a place to cut both lists. -/
def searchMiddle (xs ys : List α) : Nat → Nat → Frontier → Frontier → Option (Nat × Nat)
  | 0, _, _, _ => none
  | n + 1, d, forward, backward =>
    let delta : Int := (xs.length : Int) - ys.length
    let odd := delta % 2 ≠ 0
    let ahead (x y : Nat) : Nat := commonStart (xs.drop x) (ys.drop y)
    let meetsBackward (k : Int) (x : Nat) : Bool :=
      odd && (k - delta).natAbs < d && xs.length ≤ x + backward.get (delta - k)
    let (found, forward) := sweep ahead meetsBackward d (diagonals d) forward
    match found with
    | some place => some place
    | none =>
      let behind (x y : Nat) : Nat :=
        if x < xs.length && y < ys.length then
          commonEnd (xs.take (xs.length - x)) (ys.take (ys.length - y))
        else 0
      let meetsForward (k : Int) (x : Nat) : Bool :=
        !odd && (k - delta).natAbs ≤ d && xs.length ≤ x + forward.get (delta - k)
      let (found, backward) := sweep behind meetsForward d (diagonals d) backward
      match found with
      | some (x, y) =>
        let step := behind x y
        some (xs.length - (x + step), ys.length - (y + step))
      | none => searchMiddle xs ys n (d + 1) forward backward

/-- Where to cut two lists. -/
def middle? (xs ys : List α) : Option (Nat × Nat) :=
  let rounds := (xs.length + ys.length + 1) / 2 + 1
  searchMiddle xs ys rounds 0 (.start rounds) (.start rounds)

/-! ## Shortest scripts -/

/-- A run, if it has items. -/
def run (fate : Fate) (items : List α) : List (Run α) :=
  if items.isEmpty then [] else [⟨fate, items⟩]

/-- A shortest script, as runs. The depth bounds the number of cuts. -/
def script : Nat → List α → List α → List (Run α)
  | depth, xs, ys =>
    let start := commonStart xs ys
    let xs' := xs.drop start
    let ys' := ys.drop start
    let ending := commonEnd xs' ys'
    let xm := xs'.take (xs'.length - ending)
    let ym := ys'.take (ys'.length - ending)
    let between :=
      match depth, if xm.isEmpty || ym.isEmpty then none else middle? xm ym with
      | depth + 1, some (x, y) =>
        script depth (xm.take x) (ym.take y) ++ script depth (xm.drop x) (ym.drop y)
      | _, _ => run .removed xm ++ run .inserted ym
    run .kept (xs.take start) ++ between ++ run .kept (xs'.drop (xs'.length - ending))

/-! ## Settling -/

/-- A list of runs with one of them in focus; those before it are in reverse. -/
structure Focus (α : Type) where
  before : List (Run α)
  run : Run α
  after : List (Run α)

/-- Put kept items in front of runs, joining a kept run. -/
def pushKept (items : List α) : List (Run α) → List (Run α)
  | ⟨.kept, more⟩ :: rest => ⟨.kept, items ++ more⟩ :: rest
  | rest => ⟨.kept, items⟩ :: rest

/-- Put kept items behind runs in reverse, joining a kept run. -/
def pushKeptBefore (items : List α) : List (Run α) → List (Run α)
  | ⟨.kept, more⟩ :: rest => ⟨.kept, more ++ items⟩ :: rest
  | rest => ⟨.kept, items⟩ :: rest

/-- One move up: past kept items that the run ends in, past a run of the other
sort, or into one of its own sort. -/
def stepUp? (f : Focus α) : Option (Focus α) :=
  match f.before with
  | [] => none
  | previous :: before =>
    if previous.fate = .kept then
      let n := commonEnd previous.items f.run.items
      if n = 0 then if previous.items.isEmpty then some { f with before } else none
      else
        let left := f.run.items.length - n
        let moved := f.run.items.drop left
        let rest := previous.items.take (previous.items.length - n)
        some
          { before := run .kept rest ++ before
            run := ⟨f.run.fate, moved ++ f.run.items.take left⟩
            after := pushKept moved f.after }
    else if previous.fate = f.run.fate then
      some { before, run := ⟨f.run.fate, previous.items ++ f.run.items⟩, after := f.after }
    else some { before, run := f.run, after := previous :: f.after }

/-- One move down. -/
def stepDown? (f : Focus α) : Option (Focus α) :=
  match f.after with
  | [] => none
  | next :: after =>
    if next.fate = .kept then
      let n := commonStart next.items f.run.items
      if n = 0 then if next.items.isEmpty then some { f with after } else none
      else
        let moved := f.run.items.take n
        some
          { before := pushKeptBefore moved f.before
            run := ⟨f.run.fate, f.run.items.drop n ++ moved⟩
            after := run .kept (next.items.drop n) ++ after }
    else if next.fate = f.run.fate then
      some { before := f.before, run := ⟨f.run.fate, f.run.items ++ next.items⟩, after }
    else some { before := next :: f.before, run := f.run, after }

/-- Move as far as possible, at most `n` times. -/
def moveAll (step? : Focus α → Option (Focus α)) : Nat → Focus α → Focus α
  | 0, f => f
  | n + 1, f =>
    match step? f with
    | some f => moveAll step? n f
    | none => f

/-- Settle the inserted runs from the focus on. -/
def settleFrom (bound : Nat) : Nat → List (Run α) → List (Run α) → List (Run α)
  | 0, before, after => before.reverse ++ after
  | _ + 1, before, [] => before.reverse
  | n + 1, before, r :: after =>
    if r.fate = .inserted then
      let f := moveAll stepDown? bound (moveAll stepUp? bound ⟨before, r, after⟩)
      settleFrom bound n (f.run :: f.before) f.after
    else settleFrom bound n (r :: before) after

/-- Settle the inserted runs. A run moves at most once for each item and run
before it, and up at most as often as there are runs to join. -/
def settle (rs : List (Run α)) : List (Run α) :=
  let bound := rs.foldr (fun r n => 2 * r.items.length + n) (rs.length + 1)
  settleFrom bound (bound * bound) [] rs

/-! ## Changes -/

/-- The changed items between two kept runs: removed ones first. -/
def flush (removed inserted : List α) : List (Fate × α) :=
  removed.map (fun x => (.removed, x)) ++ inserted.map fun x => (.inserted, x)

/-- The changed items of a script. -/
def changesFrom (removed inserted : List α) : List (Run α) → List (Fate × α)
  | [] => flush removed inserted
  | ⟨.kept, _⟩ :: rs => flush removed inserted ++ changesFrom [] [] rs
  | ⟨.removed, xs⟩ :: rs => changesFrom (removed ++ xs) inserted rs
  | ⟨.inserted, xs⟩ :: rs => changesFrom removed (inserted ++ xs) rs

/-- The items that change between two lists. -/
def changes (xs ys : List α) : List (Fate × α) :=
  changesFrom [] [] (settle (script (xs.length + ys.length) xs ys))

end PlanSync.Difference
