import PlanSync.CommandLine.Failure
import PlanSync.CommandLine.Style
import PlanSync.Files.Tree
import PlanSync.Text.ControlSequence

/-!
# What a program does

A *program* is something done with files that prints lines and reports on the
way. It is a plain function of its settings and of the world it finds, so a
whole run can be looked at from outside.
-/

namespace PlanSync

/-! ## Reports -/

/-- The style of a level. -/
def LogLevel.style : LogLevel → Style
  | .warn => .yellow
  | .info => .green
  | .debug => .blue

/-- A report as it is shown, with its line break. Without styles nothing in it
can control a terminal either. -/
def LogEntry.text (styled : Bool) (e : LogEntry) : String :=
  let bracket := Style.gray.paint styled
  let line :=
    bracket "[" ++ e.level.style.paint styled (Text.fillEnd 5 e.level.name) ++ " "
      ++ e.source.target ++ bracket "]" ++ " "
      ++ CommandLine.Failure.hanging "" "    " e.message ++ "\n"
  if styled then line else Text.plain line

namespace CommandLine

/-! ## Programs -/

/-- What is settled before a program begins. -/
structure Settings where
  environment : Environment
  /-- Reports are shown up to this verbosity. -/
  verbosity : Nat := 0
  /-- Nothing is shown that could be left out. -/
  quiet : Bool := false
  /-- The time at which files are written. -/
  clock : FileTree → Timestamp

/-- What a program finds and leaves. -/
structure World where
  files : FileTree
  /-- The lines that were printed. -/
  output : List String := []
  /-- The text that was printed as reports and errors. -/
  reports : String := ""

/-- Something that is done with a world and may fail. -/
abbrev Program := ReaderT Settings (ExceptT Failure (StateM World))

namespace Program

/-- Print lines. -/
def print (lines : List String) : Program Unit :=
  modify fun w => { w with output := w.output ++ lines }

/-- Print a text as a report. -/
def complain (text : String) : Program Unit :=
  modify fun w => { w with reports := w.reports ++ text }

/-- Whether printed text is styled. -/
def styled : Program Bool := return (← read).environment.stylesOutput

/-- Whether a report is shown. -/
def shows (s : Settings) (e : LogEntry) : Bool := !s.quiet && e.level.verbosity ≤ s.verbosity

/-- Show reports. -/
def record (log : Log) : Program Unit := do
  let s ← read
  complain (String.join ((log.filter (shows s)).map (LogEntry.text s.environment.stylesReports)))

/-- Fail. -/
def fail {α : Type} (message : String) (causes : List String := []) : Program α :=
  throw { message, causes }

/-- An answer that needs no world; a failure is put into words. -/
def ofExcept {ε α : Type} (words : ε → Failure) (x : Except ε α) : Program α :=
  match x with
  | .ok a => return a
  | .error e => throw (words e)

/-- Do something with the files; its failure is put into words. -/
def perform {ε α : Type} (words : ε → Failure) (x : Action FileTree ε α) : Program α := do
  let w ← get
  let r := x w.files
  set { w with files := r.state }
  record r.log
  ofExcept words r.result

end Program

end CommandLine

end PlanSync
