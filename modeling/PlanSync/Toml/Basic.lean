import PlanSync.SortedMap
import PlanSync.Number.Binary64

/-!
# TOML values

A document is a table. Tables remember how they came to be, since that decides
what later lines may still do with them: a header opens a table once and may
reach through tables that are not in braces; a key with dots may extend tables
that such keys made or that headers imply, and no header opens these any more;
what stands in braces is complete.
-/

namespace PlanSync

/-- How a table came to be. -/
inductive TableOrigin where
  /-- A header opened it; the document itself counts as opened. -/
  | header
  /-- The header of a table inside it implies it. -/
  | implied
  /-- A key with dots made or extended it. -/
  | dotted
  /-- It was written in braces. -/
  | inline
  deriving DecidableEq

/-- A TOML value. -/
inductive Toml where
  | string (value : String)
  | integer (value : Int)
  /-- A double; none for an infinity or what is no number. -/
  | float (value : Option Binary64)
  /-- A number that does not fit its type. -/
  | outOfRange
  | bool (value : Bool)
  /-- A date, a time or both, as written. -/
  | dateTime (text : String)
  | array (items : List Toml)
  /-- An array of tables that headers extend, the latest table first. -/
  | tables (items : List Toml)
  | table (origin : TableOrigin) (entries : List (String × Toml))

namespace Toml

/-- The document without lines. -/
def empty : Toml := table .header []

/-- The value at a key of a table. -/
def get? (key : String) : Toml → Option Toml
  | table _ entries => List.lookup key entries
  | _ => none

/-- The entries of a table. -/
def entries : Toml → List (String × Toml)
  | table _ es => es
  | _ => []

/-- Entries with the value at a key replaced, or added at the end. -/
def setEntry (key : String) (value : Toml) : List (String × Toml) → List (String × Toml)
  | [] => [(key, value)]
  | e :: es => if e.1 = key then (key, value) :: es else e :: setEntry key value es

/-- The items of an array of either sort. -/
def items? : Toml → Option (List Toml)
  | array xs => some xs
  | tables xs => some xs.reverse
  | _ => none

/-! ## Reading everything -/

mutual

/-- Whether all numbers in a value fit their types. -/
def isReadable : Toml → Bool
  | outOfRange => false
  | array xs | tables xs => areReadable xs
  | table _ es => entriesAreReadable es
  | _ => true

def areReadable : List Toml → Bool
  | [] => true
  | x :: xs => isReadable x && areReadable xs

def entriesAreReadable : List (String × Toml) → Bool
  | [] => true
  | (_, x) :: es => isReadable x && entriesAreReadable es

end

/-! ## Lines -/

/-- Change the table that a path leads to from a table, making those that are
missing. `origin` is that of the tables that are made: `implied` on behalf of
a header, `dotted` on behalf of a key, which makes every table on its way its
own. -/
def within (origin : TableOrigin) (change : Toml → Option Toml) :
    List String → Toml → Option Toml
  | [], t => change t
  | key :: path, table o entries =>
    match List.lookup key entries with
    | none => do
      let t ← within origin change path (table origin [])
      return table o (setEntry key t entries)
    | some (table o' es) =>
      if o' = .inline || (origin = .dotted && o' = .header) then none
      else do
        let t ← within origin change path (table (if origin = .dotted then .dotted else o') es)
        return table o (setEntry key t entries)
    | some (tables (last :: earlier)) =>
      if origin = .dotted then none
      else do
        let t ← within origin change path last
        return table o (setEntry key (tables (t :: earlier)) entries)
    | some _ => none
  | _ :: _, _ => none

/-- Add an entry to a table that has none at this key. -/
def addEntry (key : String) (value : Toml) : Toml → Option Toml
  | table o entries =>
    if (List.lookup key entries).isSome then none
    else some (table o (entries ++ [(key, value)]))
  | _ => none

/-- Set the value of a key in a table. -/
def setKey (t : Toml) (path : List String) (key : String) (value : Toml) : Option Toml :=
  within .dotted (addEntry key value) path t

/-- Open a table in its parent: it must not be there, or only be implied. -/
def openTable (key : String) : Toml → Option Toml
  | table o entries =>
    match List.lookup key entries with
    | none => some (table o (entries ++ [(key, table .header [])]))
    | some (table .implied es) => some (table o (setEntry key (table .header es) entries))
    | some _ => none
  | _ => none

/-- Add a table to an array of tables in its parent. -/
def openItem (key : String) : Toml → Option Toml
  | table o entries =>
    match List.lookup key entries with
    | none => some (table o (entries ++ [(key, tables [table .header []])]))
    | some (tables xs) => some (table o (setEntry key (tables (table .header [] :: xs)) entries))
    | some _ => none
  | _ => none

/-- The header of a table, or of an item of an array of tables. -/
structure Header where
  parents : List String
  key : String
  isItem : Bool
  deriving DecidableEq

namespace Header

/-- Open what a header names. -/
def apply (h : Header) : Toml → Option Toml :=
  within .implied (if h.isItem then openItem h.key else openTable h.key) h.parents

/-- The path of what a header names. -/
def path (h : Header) : List String := h.parents ++ [h.key]

end Header

/-- Set the value of a key below the header that was opened last. -/
def setBelow (t : Toml) (header : Option Header) (path : List String) (key : String)
    (value : Toml) : Option Toml :=
  match header with
  | none => t.setKey path key value
  | some h => within .implied (fun t => t.setKey path key value) h.path t

end Toml

end PlanSync
