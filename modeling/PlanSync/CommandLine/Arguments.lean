import PlanSync.Environment
import PlanSync.Text.Decimal

/-!
# Command lines

A command line names a command, with options of the whole program before or
after it and options of its own after it. An option is written `--name` or, if
it has a letter, `-n`; letters may share one dash. A value is the next word, or
follows the name after `=`, or the letter with or without `=`. Words after `--`
are no options.

An option that takes a value may be given once before the command and once
after it; the later one counts. Its value is looked at only when the next
option or the end of the words is reached, so a question for the version after
the command comes before a bad value in front of it.
-/

namespace PlanSync.CommandLine

/-! ## Options and commands -/

/-- What can be given. -/
inductive OptionName where
  | verbose
  | quiet
  | config
  | store
  | help
  | version
  | namespaceName
  | template
  | pullRequests
  | jobs
  | dryRun
  | yes
  /-- The word that follows `completions`. -/
  | shell
  deriving DecidableEq

namespace OptionName

/-- The name after two dashes. -/
def long? : OptionName → Option String
  | verbose => some "verbose"
  | quiet => some "quiet"
  | config => some "config"
  | store => some "store"
  | help => some "help"
  | version => some "version"
  | namespaceName => some "namespace"
  | template => some "template"
  | pullRequests => some "pull-requests"
  | jobs => some "jobs"
  | dryRun => some "dry-run"
  | yes => some "yes"
  | shell => none

/-- The letter after one dash. -/
def short? : OptionName → Option Char
  | verbose => some 'v'
  | quiet => some 'q'
  | help => some 'h'
  | version => some 'V'
  | namespaceName => some 'n'
  | template => some 't'
  | pullRequests => some 'p'
  | jobs => some 'j'
  | yes => some 'y'
  | config | store | dryRun | shell => none

/-- Whether an option takes a value. -/
def takesValue : OptionName → Bool
  | config | store | namespaceName | template | pullRequests | jobs | shell => true
  | verbose | quiet | help | version | dryRun | yes => false

/-- The shells that completions can be asked for. -/
def shells : List String := ["bash", "elvish", "fish", "powershell", "zsh"]

/-- Whether an option takes a value: paths must not be empty and the number of
jobs must be one. -/
def accepts (value : String) : OptionName → Bool
  | config | store | pullRequests => value ≠ ""
  | jobs => (Text.readWord? value).isSome
  | shell => shells.contains value
  | _ => true

end OptionName

/-- The commands. -/
inductive CommandName where
  | reconcile
  | plan
  | list
  | completions
  deriving DecidableEq

namespace CommandName

def all : List CommandName := [reconcile, plan, list, completions]

/-- The name of a command. -/
def text : CommandName → String
  | reconcile => "reconcile"
  | plan => "plan"
  | list => "list"
  | completions => "completions"

/-- The command of a name. -/
def ofText? (s : String) : Option CommandName := all.find? fun c => c.text = s

/-- The options that must be given to a command. -/
def required : CommandName → List OptionName
  | reconcile | plan => [.namespaceName, .template, .pullRequests]
  | list => [.namespaceName, .template]
  | completions => [.shell]

/-- The options a command knows of its own. -/
def options : CommandName → List OptionName
  | reconcile => required reconcile ++ [.jobs, .dryRun, .yes]
  | c => required c

end CommandName

/-- The options of the whole program. -/
def programOptions : List OptionName := [.verbose, .quiet, .config, .store, .help, .version]

/-! ## What is given on a level -/

/-- Why a command line is not carried out. -/
inductive Stop where
  /-- It is not well formed. -/
  | usage
  /-- It asks for the version of the program or of a command. -/
  | version (command : Option CommandName)
  /-- It asks for help. -/
  | help
  deriving DecidableEq

/-- The options given before the command, or after it. -/
structure Given where
  flags : List OptionName := []
  values : List (OptionName × String) := []
  /-- How often more reports were asked for. -/
  verbosity : Nat := 0
  /-- An option whose value has not been looked at, or not even been read. -/
  pending : Option (OptionName × Option String) := none

/-- A level of the command line: the whole program, or a command. -/
structure Level where
  command : Option CommandName

namespace Level

/-- The options that are known on a level. -/
def options (l : Level) : List OptionName :=
  programOptions ++ (l.command.map CommandName.options).getD []

/-- The option with a name. -/
def ofLong? (l : Level) (name : String) : Option OptionName :=
  l.options.find? fun o => o.long? = some name

/-- The option with a letter. -/
def ofShort? (l : Level) (c : Char) : Option OptionName :=
  l.options.find? fun o => o.short? = some c

end Level

namespace Given

/-- The value of an option. -/
def value? (g : Given) (o : OptionName) : Option String :=
  (g.values.find? fun e => e.1 = o).map Prod.snd

/-- Whether a flag is given. -/
def has (g : Given) (o : OptionName) : Bool := g.flags.contains o

/-- Look at the value of the option that waits for it. -/
def settle (g : Given) : Except Stop Given :=
  match g.pending with
  | none => .ok g
  | some (_, none) => .error .usage
  | some (o, some v) =>
    if (g.value? o).isSome || !o.accepts v then .error .usage
    else .ok { g with values := g.values ++ [(o, v)], pending := none }

/-- Take an option without a value. -/
def takeFlag (l : Level) (o : OptionName) (g : Given) : Except Stop Given := do
  let g ← g.settle
  match o with
  | .version => .error (.version l.command)
  | .help => .error .help
  | .verbose => return { g with verbosity := g.verbosity + 1 }
  | o => if g.has o then .error .usage else return { g with flags := o :: g.flags }

/-- Take an option, perhaps with a value attached to it. -/
def takeOption (l : Level) (o : OptionName) (attached : Option String) (g : Given) :
    Except Stop Given :=
  if o.takesValue then do
    let g ← g.settle
    let g := { g with pending := some (o, attached) }
    if attached.isSome then g.settle else return g
  else if attached.isSome then .error .usage
  else g.takeFlag l o

/-- Take what follows two dashes. -/
def takeLong (l : Level) (text : List Char) (g : Given) : Except Stop Given :=
  let name := String.ofList (text.takeWhile (· ≠ '='))
  let attached :=
    match text.dropWhile (· ≠ '=') with
    | [] => none
    | _ :: value => some (String.ofList value)
  match l.ofLong? name with
  | none => .error .usage
  | some o => g.takeOption l o attached

/-- Take the letters that follow one dash. -/
def takeShorts (l : Level) : List Char → Given → Except Stop Given
  | [], g => .ok g
  | c :: cs, g =>
    match l.ofShort? c with
    | none => .error .usage
    | some o =>
      if o.takesValue then
        let attached :=
          match cs with
          | [] => none
          | '=' :: value => some (String.ofList value)
          | value => some (String.ofList value)
        g.takeOption l o attached
      else do
        let g ← g.takeFlag l o
        takeShorts l cs g

/-- Take a word that is no option. -/
def takeWord (l : Level) (word : String) (g : Given) : Except Stop Given :=
  if l.command ≠ some .completions then .error .usage
  else do
    let g ← g.settle
    if (g.value? .shell).isSome then .error .usage
    else return { g with pending := some (.shell, some word) }

/-- Take words up to a command; the rest begins with it. `trailing` says that
two dashes stood before. -/
def takeWords (l : Level) (trailing : Bool) :
    List String → Given → Except Stop (Given × List String)
  | [], g => .ok (g, [])
  | w :: ws, g =>
    if trailing then do
      let g ← g.takeWord l w
      takeWords l true ws g
    else
      match g.pending, w.toList with
      | _, ['-', '-'] => takeWords l true ws g
      | _, '-' :: '-' :: name => do
        let g ← g.takeLong l name
        takeWords l false ws g
      | _, '-' :: c :: cs => do
        let g ← g.takeShorts l (c :: cs)
        takeWords l false ws g
      | some (o, none), _ => takeWords l false ws { g with pending := some (o, some w) }
      | _, _ =>
        if l.command.isNone && ((CommandName.ofText? w).isSome || w = "help") then .ok (g, w :: ws)
        else do
          let g ← g.takeWord l w
          takeWords l false ws g

/-- The variable that gives the configuration file when no option does. -/
def configVariable : String := "BRANCH_PLANNER_CONFIG"

/-- Look at what is left when the words of a level have been taken. A variable
that stands in for a missing option must be as good as one. -/
def complete (env : Environment) (g : Given) : Except Stop Given := do
  let g ← g.settle
  let standIn := env.get? configVariable
  if (g.value? .config).isNone && standIn.any fun v => !OptionName.config.accepts v then
    .error .usage
  else return g

end Given

/-! ## The whole line -/

/-- A template named on the command line. -/
structure TemplateName where
  namespaceName : String
  name : String
  deriving DecidableEq

/-- A command with its options. -/
inductive Command where
  | reconcile (template : TemplateName) (pullRequests : String) (jobs : Option Nat)
      (dryRun yes : Bool)
  | plan (template : TemplateName) (pullRequests : String)
  | list (template : TemplateName)
  | completions (shell : String)
  deriving DecidableEq

/-- A command line that can be carried out. -/
structure Invocation where
  verbosity : Nat
  quiet : Bool
  /-- The configuration file. -/
  config : Option String
  /-- The directory of the store. -/
  store : Option String
  command : Command
  deriving DecidableEq

/-- The command that options describe. -/
def commandOf? (name : CommandName) (g : Given) : Option Command :=
  let template? : Option TemplateName := do
    let ns ← g.value? .namespaceName
    let n ← g.value? .template
    return ⟨ns, n⟩
  match name with
  | .reconcile => do
    let template ← template?
    let prs ← g.value? .pullRequests
    return .reconcile template prs ((g.value? .jobs).bind Text.readWord?) (g.has .dryRun)
      (g.has .yes)
  | .plan => do
    let template ← template?
    let prs ← g.value? .pullRequests
    return .plan template prs
  | .list => template?.map .list
  | .completions => (g.value? .shell).map .completions

/-- Words after `help` must name one command at most. -/
def helpAbout : List String → Stop
  | [] => .help
  | [w] => if (CommandName.ofText? w).isSome || w = "help" then .help else .usage
  | _ => .usage

/-- Read a command line. -/
def parse (env : Environment) (words : List String) : Except Stop Invocation := do
  let (before, rest) ← Given.takeWords ⟨none⟩ false words {}
  match rest with
  | [] => .error .usage
  | w :: rest =>
    match CommandName.ofText? w with
    | none => .error (helpAbout rest)
    | some name => do
      let (after, _) ← Given.takeWords ⟨some name⟩ false rest {}
      let after ← after.complete env
      match commandOf? name after with
      | none => .error .usage
      | some command => do
        let before ← before.complete env
        return {
          verbosity := if after.verbosity = 0 then before.verbosity else after.verbosity
          quiet := before.has .quiet || after.has .quiet
          config :=
            ((after.value? .config).or (before.value? .config)).or (env.get? Given.configVariable)
          store := (after.value? .store).or (before.value? .store)
          command }

end PlanSync.CommandLine
