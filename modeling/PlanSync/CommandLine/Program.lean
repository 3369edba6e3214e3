import PlanSync.CommandLine.Commands

/-!
# Whole runs

From the words of a command line to what is printed, what the files are
afterwards, and a number that tells whether all went well.
-/

namespace PlanSync.CommandLine

/-- What a run leaves behind. -/
structure Ending where
  /-- 0 if all went well, 1 after a failure, 2 if the command line is none. -/
  code : Nat
  output : List String := []
  reports : String := ""
  files : FileTree

/-- The name of the program. -/
def programName : String := "branch-planner"

/-- The version of the program. -/
def versionText : String := "0.1.0"

/-- The answer to a question for the version. -/
def versionLine (command : Option CommandName) : String :=
  programName ++ ((command.map fun c => "-" ++ c.text).getD "") ++ " " ++ versionText

/-- How the program is used. -/
def helpLines : List String :=
  ["Keep plan-only Terraform objects in sync with open pull requests",
    "",
    "Usage: " ++ programName ++ " [OPTIONS] <COMMAND>",
    "",
    "Commands:",
    "  reconcile  Create, update and delete branch objects for the open pull requests",
    "  plan       Show what reconcile would change, without changing anything",
    "  list       List the branch objects a template owns",
    "",
    "Options:",
    "  -v, --verbose          Report more; may be given several times",
    "  -q, --quiet            Suppress non-essential output",
    "      --config <FILE>    Config file",
    "      --store <DIR>      Object store directory",
    "  -n, --namespace <NS>   Namespace of the template",
    "  -t, --template <NAME>  Name of the template Terraform object",
    "  -p, --pull-requests <FILE>",
    "                         JSON file listing the open pull requests",
    "  -j, --jobs <N>         Number of branches applied in parallel",
    "      --dry-run          Show what would change without applying",
    "  -y, --yes              Skip the confirmation prompt"]

/-! ## What a run looks at -/

/-- The file with the open pull requests. -/
def Command.pullRequests? : Command → Option String
  | .reconcile _ path .. => some path
  | .plan _ path => some path
  | _ => none

/-- The configuration file of a run. -/
def Invocation.configPath? (env : Environment) (i : Invocation) : Option String :=
  i.config.or ((Place.config.find? env).map fun found => configFileIn found.1)

/-- The store of a run whose configuration file is among the files. -/
def Invocation.storePath? (env : Environment) (files : FileTree) (i : Invocation) :
    Option String :=
  let config : Option Config := do
    let path ← i.configPath? env
    let text ← (files.read path).toOption
    (Config.ofText text).toOption
  ((config.getD {}).storePath? env (i.store.map env.expand)).map Prod.fst

/-! ## Runs -/

/-- Carry out a command. How many branches are applied at a time makes no
difference to what comes of it, so they are applied one after the other. -/
def carryOut (i : Invocation) : Program Unit :=
  match i.command with
  | .completions shell =>
    Program.fail ("Completions for " ++ shell ++ " are not available")
  | .reconcile template pullRequests _ dryRun yes => do
    reconcile (← Session.begin i.config i.store) template pullRequests dryRun yes
  | .plan template pullRequests => do
    showPlan (← Session.begin i.config i.store) template pullRequests
  | .list template => do
    list (← Session.begin i.config i.store) template

/-- How a run ends whose command line is not carried out. -/
def stopped (files : FileTree) : Stop → Ending
  | .usage => { code := 2, reports := Text.joinLines helpLines, files }
  | .version command => { code := 0, output := [versionLine command], files }
  | .help => { code := 0, output := helpLines, files }

/-- Run the program. -/
def run (environment : Environment) (clock : FileTree → Timestamp) (words : List String)
    (files : FileTree) : Ending :=
  match parse environment words with
  | .error stop => stopped files stop
  | .ok i =>
    let settings := { environment, verbosity := i.verbosity, quiet := i.quiet, clock }
    let (result, world) := ((carryOut i).run settings).run.run { files }
    let ending : Ending :=
      { code := 0, output := world.output, reports := world.reports, files := world.files }
    match result with
    | .ok () => ending
    | .error failure =>
      { ending with code := 1, reports := ending.reports ++ Text.joinLines [failure.text] }

end PlanSync.CommandLine
