import PlanSync.SortedMap
import PlanSync.Text.Alphanumeric
import PlanSync.Text.Cut

/-!
# The environment of the program

Variables, and the home directory of the account. Paths that a user writes are
*expanded*: variables are replaced by their values, and a tilde that stands
for a whole first step by the home directory. A path with a variable that is
not set stays as it is.

A variable is written `$NAME` or, in braces, `${NAME}` or
`${NAME:-default}`, where the default counts only if the variable is not
set. Two dollar signs stand for one; a dollar sign before anything else stands
for itself.
-/

namespace PlanSync

/-- What the program is told about where it runs. -/
structure Environment where
  /-- The values of the variables that are set. -/
  values : SortedMap String String := .empty
  /-- The home directory that the account data name. -/
  accountHome : Option String := none
  /-- Whether what is printed goes to a terminal. -/
  outputIsTerminal : Bool := false
  /-- Whether reports and errors go to a terminal. -/
  errorIsTerminal : Bool := false

namespace Environment

/-- The value of a variable. The environment holds entries `NAME=value`, and a
name is looked up as the beginning of an entry up to an equals sign: a name
with an equals sign in it reaches into a value. -/
def get? (env : Environment) (name : String) : Option String :=
  match Text.cut? '=' name with
  | none => env.values.get? name
  | some (name, start) => (env.values.get? name).bind (Text.dropStart? (start ++ "="))

/-- The home directory: the variable `HOME` unless it is empty. -/
def home? (env : Environment) : Option String :=
  ((env.get? "HOME").filter (· ≠ "")).or env.accountHome

/-! ## Variables -/

/-- A character that may stand in the name of a variable. -/
def isNameChar (c : Char) : Bool := Text.isAlphanumeric c || c = '_'

/-- What stands before and after the first `:-`, if it occurs. -/
def cutDefault? : List Char → Option (List Char × List Char)
  | [] => none
  | ':' :: '-' :: cs => some ([], cs)
  | c :: cs => (cutDefault? cs).map fun r => (c :: r.1, r.2)

/-- The name and the default in braces. A default needs a name before it. -/
def nameAndDefault (cs : List Char) : List Char × Option (List Char) :=
  match cutDefault? cs with
  | some (name, default) => if name.isEmpty then (cs, none) else (name, some default)
  | none => (cs, none)

/-- The value of what stands in braces. -/
def braced? (env : Environment) (cs : List Char) : Option (List Char) :=
  let (name, default) := nameAndDefault cs
  ((env.get? (String.ofList name)).map String.toList).or default

/-- What stands for a dollar sign and what follows it, and the rest of the
text; `none` if it names a variable that is not set. -/
def replaceOne? (env : Environment) : List Char → Option (List Char × List Char)
  | '\x7b' :: cs =>
    match Text.cutList? '\x7d' cs with
    | some (inside, rest) => (braced? env inside).map fun v => (v, rest)
    | none => some (['$', '\x7b'], cs)
  | '$' :: cs => some (['$'], cs)
  | cs =>
    let name := cs.takeWhile isNameChar
    if name.isEmpty then some (['$'], cs)
    else (env.get? (String.ofList name)).map fun v => (v.toList, cs.dropWhile isNameChar)

/-- Replace the first `n` or fewer variables of a text; `none` if one of them
is not set. -/
def replaceVariables? (env : Environment) : Nat → List Char → Option (List Char)
  | 0, cs => some cs
  | n + 1, cs =>
    let before := cs.takeWhile (· ≠ '$')
    match cs.dropWhile (· ≠ '$') with
    | [] => some before
    | _ :: rest => do
      let (value, rest) ← replaceOne? env rest
      let after ← replaceVariables? env n rest
      return before ++ value ++ after

/-! ## The home directory -/

/-- Replace a tilde that is the whole first step. -/
def replaceTilde (env : Environment) (path : List Char) : List Char :=
  match path, env.home? with
  | ['~'], some home => home.toList
  | '~' :: '/' :: rest, some home => home.toList ++ '/' :: rest
  | path, _ => path

/-- A path with variables and tilde replaced. A tilde that comes out of a
variable stands for itself. -/
def expand (env : Environment) (path : String) : String :=
  let cs := path.toList
  match replaceVariables? env cs.length cs with
  | none => path
  | some replaced =>
    if cs.head? ≠ some '~' && replaced.head? = some '~' then String.ofList replaced
    else String.ofList (replaceTilde env replaced)

end Environment

end PlanSync
