import PlanSync.Metadata

/-!
# Label selectors

A selector asks for labels with given values.
-/

namespace PlanSync

/-- Labels that must be there. -/
structure Selector where
  required : Labels := .empty
  deriving DecidableEq

namespace Selector

/-- Ask for a label with a value. -/
def requiring (s : Selector) (key value : String) : Selector := ⟨s.required.insert key value⟩

/-- Whether labels have everything that is asked for. -/
def accepts (s : Selector) (labels : Labels) : Bool :=
  s.required.entries.all fun e => labels.get? e.1 = some e.2

/-- The selector as messages show it. -/
def display (s : Selector) : String :=
  Text.join "," (s.required.entries.map fun e => e.1 ++ "=" ++ e.2)

end Selector

end PlanSync
