import PlanSync.CommandLine.Style
import PlanSync.Pass

/-!
# How a command fails

A failure says what could not be done and, from the nearest to the farthest,
what caused it.
-/

namespace PlanSync.CommandLine

/-- Why a command fails. -/
structure Failure where
  message : String
  causes : List String := []

namespace Failure

/-! ## From errors -/

/-- The words of a store error and of its causes. -/
def ofStore (e : StoreError) : List String :=
  e.message ::
    match e with
    | .file cause => [cause.message]
    | .json cause => [cause.message]
    | _ => []

/-- The words of a provider error and of its cause. -/
def ofProvider (e : ProviderError) : List String :=
  e.message ::
    match e with
    | .read _ cause => [cause.message]
    | .json cause => [cause.message]

/-- The words of a pass error and of its causes. -/
def ofPass (e : PassError) : List String :=
  e.message ::
    match e with
    | .store cause => ofStore cause
    | .provider cause => ofProvider cause
    | _ => []

/-! ## In words -/

/-- A text whose first line begins in one way and whose other lines begin in
another. -/
def hanging (first others text : String) : String :=
  first ++ Text.join ("\n" ++ others) (Text.pieces '\n' text)

/-- The causes, one a line; several are numbered. -/
def causeLines (causes : List String) : List String :=
  match causes with
  | [cause] => [hanging "    " "    " cause]
  | _ =>
    causes.zipIdx.map fun c =>
      hanging (Text.fillStart 5 (Text.decimal c.2) ++ ": ") "       " c.1

/-- A failure in words. -/
def text (f : Failure) : String :=
  let causes :=
    if f.causes.isEmpty then ""
    else "\n\nCaused by:\n" ++ Text.join "\n" (causeLines f.causes)
  "Error: " ++ f.message ++ causes

end Failure

end PlanSync.CommandLine
