import PlanSync.Apply
import PlanSync.CommandLine.Style
import PlanSync.Json.Printer
import PlanSync.Text.Decimal
import PlanSync.Text.Difference

/-!
# Plans and passes as people see them

What is printed about a plan, about its application while it goes on, and
about what came of it. Every view is a list of lines.
-/

namespace PlanSync

/-- A number with the noun it counts, as in `1 branch` and `3 branches`. -/
def Text.counted (n : Nat) (one many : String) : String :=
  Text.decimal n ++ " " ++ (if n = 1 then one else many)

namespace CommandLine

/-! ## Notes -/

/-- A note that asks for attention. -/
def caution (styled : Bool) (text : String) : String :=
  Style.yellow.paint styled "⚠" ++ " " ++ text

/-- A note. -/
def remark (styled : Bool) (text : String) : String :=
  Style.blue.paint styled "ℹ" ++ " " ++ text

/-- An error. -/
def complaint (styled : Bool) (text : String) : String :=
  Style.red.paint styled "✗" ++ " " ++ text

/-- A note in passing. -/
def aside (styled : Bool) (text : String) : String := "  " ++ Style.dimmed.paint styled text

/-- A title over a line. -/
def heading (styled : Bool) (title : String) : List String :=
  ["", Style.bold.paint styled title,
    Style.dimmed.paint styled (String.ofList (List.replicate title.length '─'))]

/-- A name and what it stands for. -/
def entry (styled : Bool) (key value : String) : String :=
  "  " ++ Style.dimmed.paint styled key ++ ": " ++ value

/-! ## Plans -/

/-- The style of an operation. -/
def operationStyle : Operation → Style
  | .create => .green
  | .update => .yellow
  | .delete => .red

/-- The mark of an operation. -/
def operationMark : Operation → String
  | .create => "+"
  | .update => "~"
  | .delete => "-"

/-- The lines of an object's document, with all keys in order. -/
def documentLines {k : Kind} (o : Object k) : List String :=
  Text.pieces '\n' o.toJson.sortKeys.pretty

/-- What is removed from a document and inserted into it. -/
def changedLines {k : Kind} (current updated : Object k) : List (Difference.Fate × String) :=
  Difference.changes (documentLines current) (documentLines updated)

/-- A changed line. -/
def changedLine (styled : Bool) : Difference.Fate × String → String
  | (.removed, line) => Style.red.paint styled ("- " ++ line)
  | (_, line) => Style.green.paint styled ("+ " ++ line)

/-- A step, and the lines it changes. -/
def stepLines (styled : Bool) (s : Step) : List String :=
  let mark := (operationStyle s.operation).paint styled (operationMark s.operation)
  ("│   " ++ mark ++ " " ++ Text.fillEnd 14 s.key.kind.name ++ " " ++ s.key.name) ::
    match s with
    | .update _ current updated =>
      (changedLines current updated).map fun c => "│       " ++ changedLine styled c
    | _ => []

/-- A change with its steps. -/
def changeLines (styled : Bool) (c : BranchChange) : List String :=
  ("│ " ++ Style.bold.paint styled c.label) :: c.steps.flatMap (stepLines styled) ++ ["│"]

/-- A number in a style. -/
def countIn (styled : Bool) (s : Style) (n : Nat) : String := s.paint styled (Text.decimal n)

/-- The counts of a plan. -/
def countsLine (styled : Bool) (p : Plan) : String :=
  let s := p.summary
  "│ Summary: " ++ countIn styled .green s.creates ++ " to create, "
    ++ countIn styled .yellow s.updates ++ " to update, " ++ countIn styled .red s.deletes
    ++ " to delete (" ++ Text.decimal p.unchanged.length ++ " unchanged)"

/-- A plan that has nothing to do. -/
def upToDateLines (styled : Bool) (p : Plan) : List String :=
  ["", "  " ++ Style.green.paint styled "✓" ++ " No changes needed ("
    ++ Text.counted p.unchanged.length "branch" "branches" ++ " up to date)"]

/-- A plan that has something to do. -/
def changesLines (styled : Bool) (p : Plan) : List String :=
  let line (n : Nat) : String := String.ofList (List.replicate n '─')
  ["", "┌─ " ++ Style.bold.paint styled "Branch Plan" ++ " " ++ line 41 ++ "┐", "│"]
    ++ p.changes.flatMap (changeLines styled)
    ++ ["├" ++ line 53 ++ "┤", countsLine styled p, "└" ++ line 53 ++ "┘"]

/-- A plan. -/
def planLines (styled : Bool) (p : Plan) : List String :=
  p.skipped.map (fun s => caution styled ("Skipped " ++ s.branchId.text ++ ": " ++ s.reason))
    ++ if p.isEmpty then upToDateLines styled p else changesLines styled p

/-! ## Passes -/

/-- What is printed while a plan is applied. Failures are printed even if
nothing else is. -/
def progressLines (styled quiet : Bool) : Progress → List String
  | .started n =>
    if quiet then []
    else
      ["", "  " ++ Style.cyan.paint styled "→" ++ " Applying "
        ++ Text.counted n "change" "changes" ++ "..."]
  | .applied c => if quiet then [] else ["    " ++ Style.green.paint styled "✓" ++ " " ++ c.label]
  | .failed c e => ["    " ++ complaint styled (c.label ++ ": " ++ e.message)]
  | .completed => []

/-- What came of a pass. -/
def summaryLines (styled : Bool) (s : ApplySummary) : List String :=
  let outcome :=
    if s.isSuccess then Style.green.inBold.paint styled "✓" ++ " Branch objects reconciled"
    else Style.yellow.inBold.paint styled "⚠" ++ " Reconciled with errors"
  let counted (n : Nat) (one many what : String) : List String :=
    if n = 0 then [] else ["    • " ++ Text.counted n one many ++ " " ++ what]
  ["", "  " ++ outcome]
    ++ counted s.created "object" "objects" "created"
    ++ counted s.updated "object" "objects" "updated"
    ++ counted s.deleted "object" "objects" "deleted"
    ++ counted s.failed "branch" "branches" (Style.red.paint styled "failed")

end CommandLine

end PlanSync
