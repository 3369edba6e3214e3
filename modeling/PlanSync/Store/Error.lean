import PlanSync.Files.Error
import PlanSync.Kind

/-!
# Store errors

Why a store call fails, which category the failure belongs to, and whether
calling again may succeed although nobody changes an object.
-/

namespace PlanSync

/-- Categories of errors. -/
inductive ErrorCategory where
  | notFound
  | alreadyExists
  /-- Somebody else changed the object. -/
  | conflict
  /-- Connectivity, throttling and the like. -/
  | transient
  /-- A policy forbids the access. -/
  | accessDenied
  /-- Objects are set up in a way that cannot work. -/
  | configuration
  /-- Stopped before the operation was issued. -/
  | cancelled
  | other
  deriving DecidableEq

namespace ErrorCategory

/-- Whether calling again may succeed. -/
def isRetryable : ErrorCategory → Bool
  | conflict | transient | cancelled => true
  | _ => false

/-- A category in words. -/
def description : ErrorCategory → String
  | notFound => "Object not found"
  | alreadyExists => "Object already exists"
  | conflict => "Concurrent modification"
  | transient => "Temporary store failure"
  | accessDenied => "Access denied"
  | configuration => "Configuration error"
  | cancelled => "Cancelled"
  | other => "Unexpected error"

end ErrorCategory

/-- A read error in words. -/
def ReadError.message : ReadError → String
  | fault .malformed => "the text is not well formed"
  | fault .truncated => "the text ends too early"
  | mismatch => "a value does not have the expected shape"
  | surplus => "a list of fields is too long"
  | notAName => "a value is not a name"

/-- Why a store call fails. -/
inductive StoreError where
  | notFound (key : ObjectKey)
  | alreadyExists (key : ObjectKey)
  /-- A stale resource version or a writer that was faster. -/
  | conflict (key : ObjectKey) (message : String)
  | transient (message : String)
  | invalid (message : String)
  | cancelled
  | file (cause : FileError)
  | json (cause : ReadError)
  deriving DecidableEq

namespace StoreError

/-- Kind and path of an object, as messages show them. -/
def subject (key : ObjectKey) : String := key.kind.name ++ " " ++ key.path

/-- A store error in words. -/
def message : StoreError → String
  | notFound key => subject key ++ " not found"
  | alreadyExists key => subject key ++ " already exists"
  | conflict key m => "conflict on " ++ subject key ++ ": " ++ m
  | transient m => "store unavailable: " ++ m
  | invalid m => "invalid object: " ++ m
  | cancelled => "operation cancelled before it was issued"
  | file cause => "IO error: " ++ cause.message
  | json cause => "JSON error: " ++ cause.message

/-- The category of a store error. -/
def category : StoreError → ErrorCategory
  | notFound _ => .notFound
  | alreadyExists _ => .alreadyExists
  | conflict _ _ => .conflict
  | transient _ => .transient
  | invalid _ => .configuration
  | cancelled => .cancelled
  | file _ | json _ => .other

/-- Whether calling again may succeed. -/
def isRetryable (e : StoreError) : Bool := e.category.isRetryable

/-- Whether the object was not there. -/
def isNotFound : StoreError → Bool
  | notFound _ => true
  | _ => false

/-- Whether the name was taken. -/
def isAlreadyExists : StoreError → Bool
  | alreadyExists _ => true
  | _ => false

end StoreError

end PlanSync
