import PlanSync.Store.Error
import PlanSync.Text.Quoted

/-!
# Which names can be stored

Stores key objects by namespace and name, so neither may be empty, hold a
separator of paths, or be one of the two names that mean a place in a path.
-/

namespace PlanSync.Naming

/-- Whether a namespace or a name can be stored. -/
def isStorable (s : String) : Bool :=
  s ≠ "" && !s.toList.contains '/' && !s.toList.contains '\\' && s ≠ "." && s ≠ ".."

/-- Refuse a part of a key that cannot be stored. -/
def checkPart (kind : Kind) (what value : String) : Except StoreError Unit :=
  if isStorable value then .ok ()
  else .error (.invalid (kind.name ++ " " ++ what ++ " " ++ Text.quoted value ++ " is not valid"))

/-- Refuse a key that cannot be stored. -/
def checkKey (key : ObjectKey) : Except StoreError Unit := do
  checkPart key.kind "namespace" key.namespaceName
  checkPart key.kind "name" key.name

end PlanSync.Naming
