import PlanSync.CommandLine.Arguments
import PlanSync.CommandLine.Console
import PlanSync.Config
import PlanSync.Store.Files

/-!
# Sessions

What all commands have in common: the configuration is loaded, the store
opened, the template looked up and the pull requests read.
-/

namespace PlanSync.CommandLine

/-- A configuration and the place of the store. -/
structure Session where
  config : Config
  storePath : String

/-- There is no home directory to look in. -/
def noHome : Failure := { message := "Could not determine home directory" }

/-! ## Configuration -/

/-- The configuration in a file. -/
def readConfig (path : String) : Program Config := do
  let text ←
    Program.ofExcept (fun e => { message := "Could not read " ++ path, causes := [e.message] })
      ((← get).files.read path)
  let config ←
    Program.ofExcept
      (fun e => { message := "Invalid config file " ++ path, causes := [e.message] })
      (Config.ofText text)
  Program.record [⟨.debug, .configuration, "Loaded config from " ++ path⟩]
  return config

/-- The configuration: in a file that is given, or in the usual file if there
is one. -/
def loadConfig (given : Option String) : Program Config := do
  match given with
  | some path => readConfig path
  | none =>
    match Place.config.find? (← read).environment with
    | none => throw noHome
    | some (directory, log) =>
      Program.record log
      let path := configFileIn directory
      if (← get).files.contains path then readConfig path
      else
        Program.record [⟨.debug, .configuration, "No config at " ++ path ++ ", using defaults"⟩]
        return {}

namespace Session

/-- Open a session with a configuration file and a store directory, if given. -/
def begin (config store : Option String) : Program Session := do
  let config ← loadConfig config
  let env := (← read).environment
  match config.storePath? env (store.map env.expand) with
  | none => throw noHome
  | some (storePath, log) =>
    Program.record log
    Program.perform
      (fun e =>
        { message := "Could not open store at " ++ storePath, causes := Failure.ofStore e })
      (FileStore.openAt storePath)
    return { config, storePath }

/-- The store of a session. -/
def store (s : Session) : Program (Store FileTree) :=
  return FileStore.store s.storePath (← read).clock

/-- A template and its source. -/
def resolve (s : Session) (template : TemplateName) : Program (Terraform × GitRepository) := do
  let store ← s.store
  Program.perform
    (fun e =>
      { message :=
          "Could not resolve template " ++ template.namespaceName ++ "/" ++ template.name
        causes := Failure.ofPass e })
    (Pass.resolve store s.config.policy template.namespaceName template.name)

/-- The repository to ask for pull requests. -/
def repository (s : Session) (source : GitRepository) : Program Repository :=
  let url := GitRepositorySpec.url source.spec
  match s.config.repository.or (Repository.ofUrl? url) with
  | some r => return r
  | none =>
    Program.fail
      ("Cannot determine repository of " ++ source.path ++ " from " ++ url
        ++ "; set [repository] in the config")

/-- The open pull requests in a file that a source's repository has. -/
def pullRequests (s : Session) (source : GitRepository) (path : String) :
    Program (List PullRequest) := do
  let repository ← s.repository source
  let (listed, log) := (Provider.file path ((← get).files.read path)).list repository
  Program.record log
  let prs ←
    Program.ofExcept
      (fun e =>
        { message := "Could not load pull requests from " ++ path
          causes := Failure.ofProvider e })
      listed
  Program.record
    [⟨.info, .commands,
      Text.decimal prs.length ++ " open pull requests for " ++ repository.display⟩]
  return prs

/-- The plan of a pass. -/
def plan (s : Session) (template : Terraform) (source : GitRepository) (prs : List PullRequest) :
    Program Plan := do
  let store ← s.store
  Program.perform
    (fun e => { message := "Could not compute plan", causes := Failure.ofPass e })
    (Pass.plan store template source prs)

/-- What a template owns. -/
def owned (s : Session) (template : Terraform) (source : GitRepository) :
    Program OwnedObjects := do
  let store ← s.store
  Program.perform
    (fun e => { message := "Could not list branch objects", causes := Failure.ofPass e })
    (Pass.owned store template source)

end Session

end PlanSync.CommandLine
