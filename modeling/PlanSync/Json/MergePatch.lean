import PlanSync.Json.Basic

/-!
# Merge patches

A merge patch looks like the value it changes: its members replace those of
the value, `null` removes a member, and objects are patched member by member.
Anything but an object replaces the whole value.

Nothing in a pass patches an object: steps replace objects as a whole. Patches are
what other clients of a store send it between passes. A program around the library
that plays such a client reads an object, patches it and writes it back.
-/

namespace PlanSync.Json

/-- The members a value has, none if it is no object. -/
def membersOf : Json → List (String × Json)
  | object xs => xs
  | _ => []

mutual

/-- A value after a merge patch. -/
def mergePatch (target : Json) : Json → Json
  | object patch => object (mergeMembers (membersOf target) patch)
  | j => j

def mergeMembers (members : List (String × Json)) :
    List (String × Json) → List (String × Json)
  | [] => members
  | (k, null) :: patch => mergeMembers (Entries.erase k members) patch
  | (k, j) :: patch =>
    mergeMembers
      (Entries.insert k (mergePatch ((member? k members).getD null) j) members) patch

end

end PlanSync.Json
