import PlanSync.Object.Basic

/-!
# Writing owned fields over a stored object

A pass owns part of a stored object: the whole spec, the labels and
annotations that derivation produces, and labels that were taken over earlier
and are recorded as such. Labels of others, the status and what the store
assigns stay as they are.

Detection and writing go together: an object differs from a desired one
exactly when writing would change it.
-/

namespace PlanSync

namespace Metadata

/-- Recorded keys of labels that are still there and no longer wanted. -/
def droppedKeys (current desired : Metadata) : List String :=
  current.inheritedKeys.filter fun k =>
    current.labels.contains k && !desired.labels.contains k

/-- Whether some entry of the wanted map is not in the current one. -/
def lacks (current wanted : Labels) : Bool :=
  wanted.entries.any fun e => current.get? e.1 ≠ some e.2

/-- Whether writing would change labels or annotations. -/
def differsFrom (current desired : Metadata) : Bool :=
  lacks current.labels desired.labels || lacks current.annotations desired.annotations
    || !(droppedKeys current desired).isEmpty

/-- The owned labels and annotations written over the current ones. -/
def overwrite (current desired : Metadata) : Metadata :=
  { current with
    labels := (current.labels.eraseAll (droppedKeys current desired)).overlay desired.labels
    annotations := current.annotations.overlay desired.annotations }

end Metadata

namespace Object

variable {k : Kind}

/-- Whether a stored object differs from a desired one in what a pass owns. -/
def differsFrom (current desired : Object k) : Bool :=
  !k.sameSpec current.spec desired.spec || current.metadata.differsFrom desired.metadata

/-- The owned fields of a desired object written over a stored one. -/
def overwrite (current desired : Object k) : Object k :=
  { current with
    metadata := current.metadata.overwrite desired.metadata
    spec := desired.spec }

end Object

end PlanSync
