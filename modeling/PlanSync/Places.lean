import PlanSync.Environment
import PlanSync.Files.Path
import PlanSync.Log

/-!
# Where configuration and store are

A variable of the program's own names each place; without one it is found
below a base directory of the user, which another variable names or which has
its usual place in the home directory.
-/

namespace PlanSync

/-- A place of the program, and how it is found. -/
structure Place where
  /-- How messages call it. -/
  name : String
  /-- The variable that names it. -/
  ownVariable : String
  /-- The variable that names the base directory. -/
  baseVariable : String
  /-- The steps from the home directory to the usual base directory. -/
  usualBase : List String
  /-- The steps from the base directory. -/
  below : List String

namespace Place

/-- The directory of the configuration. -/
def config : Place :=
  { name := "config dir"
    ownVariable := "BRANCH_PLANNER_CONFIG_DIR"
    baseVariable := "XDG_CONFIG_HOME"
    usualBase := [".config"]
    below := ["branch-planner"] }

/-- The directory of the object store. -/
def store : Place :=
  { name := "store dir"
    ownVariable := "BRANCH_PLANNER_STORE_DIR"
    baseVariable := "XDG_DATA_HOME"
    usualBase := [".local", "share"]
    below := ["branch-planner", "store"] }

/-- The path of a place, and what is reported about it; `none` if there is no
home directory to look in. -/
def find? (env : Environment) (p : Place) : Option (String × Log) :=
  let report (how path : String) : Log := [⟨.debug, .paths, how ++ ": " ++ path⟩]
  match env.get? p.ownVariable with
  | some value =>
    let path := env.expand value
    some (path, report ("Using " ++ p.name ++ " from " ++ p.ownVariable) path)
  | none =>
    match env.get? p.baseVariable with
    | some base =>
      let path := p.below.foldl Path.join base
      some (path, report ("Using " ++ p.baseVariable) path)
    | none =>
      env.home?.map fun home =>
        let path := (p.usualBase ++ p.below).foldl Path.join home
        (path, report ("Using default " ++ p.name) path)

end Place

/-- The path of the configuration file in the directory of the
configuration. -/
def configFileIn (directory : String) : String := Path.join directory "config.toml"

end PlanSync
