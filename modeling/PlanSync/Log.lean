/-!
# Log entries

What the library reports while it works, as values: a level, the part of the
program that speaks, and a message.
-/

namespace PlanSync

/-- How important an entry is. -/
inductive LogLevel where
  | warn
  | info
  | debug
  deriving DecidableEq

namespace LogLevel

/-- The name of a level. -/
def name : LogLevel → String
  | warn => "WARN"
  | info => "INFO"
  | debug => "DEBUG"

/-- The verbosity from which on a level is shown. -/
def verbosity : LogLevel → Nat
  | warn => 0
  | info => 1
  | debug => 2

end LogLevel

/-- The parts of the program that speak. -/
inductive LogSource where
  | derivation
  | ownership
  | application
  | pass
  | fileStore
  | pullRequestFile
  | commands
  | configuration
  | paths
  deriving DecidableEq

namespace LogSource

/-- The name of a part as log lines show it. -/
def target : LogSource → String
  | derivation => "planner::derive"
  | ownership => "planner::owned"
  | application => "planner::executor"
  | pass => "planner::reconciler"
  | fileStore => "planner::store::file"
  | pullRequestFile => "planner::provider"
  | commands => "branch_planner::commands"
  | configuration => "branch_planner::config"
  | paths => "branch_planner::paths"

end LogSource

/-- One report. -/
structure LogEntry where
  level : LogLevel
  source : LogSource
  message : String
  deriving DecidableEq

/-- Reports in the order they were made. -/
abbrev Log := List LogEntry

end PlanSync
