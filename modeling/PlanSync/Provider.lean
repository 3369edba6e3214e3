import PlanSync.Log
import PlanSync.PullRequest
import PlanSync.Store.Error

/-!
# Where pull requests come from

A provider lists the open pull requests of a repository. There are two: a
fixed list, and a file with a list that is read again on every call.
-/

namespace PlanSync

/-- Why pull requests cannot be listed. -/
inductive ProviderError where
  /-- The file cannot be read. -/
  | read (path : String) (cause : FileError)
  /-- The file holds no list of pull requests. -/
  | json (cause : ReadError)
  deriving DecidableEq

namespace ProviderError

/-- A provider error in words. -/
def message : ProviderError → String
  | read path cause => "failed to read " ++ path ++ ": " ++ cause.message
  | json cause => "invalid pull request list: " ++ cause.message

end ProviderError

/-- Lists the open pull requests of a repository, and reports. -/
structure Provider where
  list : Repository → Except ProviderError (List PullRequest) × Log

namespace Provider

/-- The pull requests of a repository among given ones. -/
def ofRepository (r : Repository) (prs : List PullRequest) : List PullRequest :=
  prs.filter fun pr => pr.repository = r

/-- A fixed list. -/
def fixed (prs : List PullRequest) : Provider := ⟨fun r => (.ok (ofRepository r prs), [])⟩

/-- All pull requests of a file with the given content. -/
def load (path : String) (content : Except FileError String) :
    Except ProviderError (List PullRequest) × Log :=
  match content with
  | .error cause => (.error (.read path cause), [])
  | .ok text =>
    match Decoder.ofText PullRequest.listDecoder text with
    | .error cause => (.error (.json cause), [])
    | .ok prs =>
      (.ok prs,
        [⟨.debug, .pullRequestFile,
          "Loaded " ++ Text.decimal prs.length ++ " pull requests from " ++ path⟩])

/-- A file with the given content. -/
def file (path : String) (content : Except FileError String) : Provider :=
  ⟨fun r =>
    let (prs, log) := load path content
    (prs.map (ofRepository r), log)⟩

end Provider

end PlanSync
