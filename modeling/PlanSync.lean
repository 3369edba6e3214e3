import PlanSync.Action
import PlanSync.Apply
import PlanSync.CommandLine.Arguments
import PlanSync.CommandLine.Commands
import PlanSync.CommandLine.Console
import PlanSync.CommandLine.Failure
import PlanSync.CommandLine.PlanView
import PlanSync.CommandLine.Program
import PlanSync.CommandLine.Session
import PlanSync.CommandLine.Style
import PlanSync.Config
import PlanSync.Derived
import PlanSync.Environment
import PlanSync.Files.Error
import PlanSync.Files.Path
import PlanSync.Files.Tree
import PlanSync.Json.Basic
import PlanSync.Json.Decode
import PlanSync.Json.Document
import PlanSync.Json.MergePatch
import PlanSync.Json.Printer
import PlanSync.Json.Reader
import PlanSync.Kind
import PlanSync.Log
import PlanSync.Main
import PlanSync.Metadata
import PlanSync.Number.Binary64
import PlanSync.Number.Shortest
import PlanSync.Object.Basic
import PlanSync.Object.GitRepository
import PlanSync.Object.Overwrite
import PlanSync.Object.Terraform
import PlanSync.ObjectName
import PlanSync.Owned
import PlanSync.Pass
import PlanSync.Places
import PlanSync.Plan
import PlanSync.Provider
import PlanSync.PullRequest
import PlanSync.Repository
import PlanSync.SortedMap
import PlanSync.Store.Basic
import PlanSync.Store.Error
import PlanSync.Store.Faulty
import PlanSync.Store.Files
import PlanSync.Store.Memory
import PlanSync.Store.Naming
import PlanSync.Store.Selector
import PlanSync.Text.Alphanumeric
import PlanSync.Text.ControlSequence
import PlanSync.Text.Cut
import PlanSync.Text.Decimal
import PlanSync.Text.Difference
import PlanSync.Text.Hidden
import PlanSync.Text.Quoted
import PlanSync.Timestamp
import PlanSync.Toml.Basic
import PlanSync.Toml.Reader
import PlanSync.Toml.Scalar
import PlanSync.Proofs.SortedMap
import PlanSync.Proofs.Answer
import PlanSync.Proofs.Action
import PlanSync.Proofs.Json.Document
import PlanSync.Proofs.Json.Record
import PlanSync.Proofs.Object.Metadata
import PlanSync.Proofs.Object.Spec
import PlanSync.Proofs.Object.Stored
import PlanSync.Proofs.Store.Listing
import PlanSync.Proofs.Object.Overwrite
import PlanSync.Proofs.PullRequest
import PlanSync.Proofs.Derived
import PlanSync.Proofs.Owned
import PlanSync.Proofs.Plan
import PlanSync.Proofs.Pass.Schedule
import PlanSync.Proofs.Pass.Effect
import PlanSync.Proofs.Pass.Course
import PlanSync.Proofs.Pass.Frame
import PlanSync.Proofs.Pass.Completeness
import PlanSync.Proofs.Pass.Idempotence
import PlanSync.Proofs.Pass.Stabilisation
import PlanSync.Proofs.Store.Content
import PlanSync.Proofs.Pass.Parallel
import PlanSync.Proofs.Pass.Underway
import PlanSync.Proofs.Pass.Recovery
import PlanSync.Proofs.Pass.Joint
import PlanSync.Proofs.Pass.Convergence
import PlanSync.Proofs.Pass.Creation
import PlanSync.Proofs.Store.History
import PlanSync.Proofs.Pass.Edits
import PlanSync.Proofs.Pass.Truthful
import PlanSync.Proofs.Pass.Sourced
import PlanSync.Proofs.Pass.Reference
import PlanSync.Proofs.Pass.Shared
import PlanSync.Proofs.Pass.Prediction
import PlanSync.Proofs.Store.Requests
import PlanSync.Proofs.Store.Consistency
import PlanSync.Proofs.Json.Reader
import PlanSync.Proofs.Json.Text
import PlanSync.Proofs.Store.FileText
import PlanSync.Proofs.Files.Tree
import PlanSync.Proofs.Store.Layout
import PlanSync.Proofs.Store.Files
import PlanSync.Proofs.Store.FileListing
import PlanSync.Proofs.Store.Staleness
import PlanSync.Proofs.Store.Lockstep
import PlanSync.Proofs.Store.Agreement
import PlanSync.Proofs.Pass.Commutation
import PlanSync.Proofs.Store.Recording
import PlanSync.Proofs.Pass.Accounting
import PlanSync.Proofs.Pass.Entry
import PlanSync.Proofs.Pass.Outcome
import PlanSync.Proofs.Pass.Isolation
import PlanSync.Proofs.Pass.Recognition
import PlanSync.Proofs.Json.Order
import PlanSync.Proofs.Object.Written
import PlanSync.Proofs.Object.RoundTrip
import PlanSync.Proofs.Json.Exact
import PlanSync.Proofs.Json.Numbers
import PlanSync.Proofs.Object.Exact
import PlanSync.Proofs.Store.Staged
import PlanSync.Proofs.Store.FoundAgain
import PlanSync.Proofs.Object.Detection
import PlanSync.Proofs.LabelRecord
import PlanSync.Proofs.Pass.Census
import PlanSync.Proofs.Pass.Upkeep
import PlanSync.Proofs.Pass.LabelHistory
import PlanSync.Proofs.Plan.Shape
import PlanSync.Proofs.Derived.Unordered
import PlanSync.Proofs.Object.Rendered
import PlanSync.Proofs.Derived.Names
import PlanSync.Proofs.Derived.Contents
import PlanSync.Proofs.Text.Cut
import PlanSync.Proofs.ObjectName
import PlanSync.Proofs.Repository
import PlanSync.Proofs.Store.Confinement
import PlanSync.Proofs.Store.Limits
import PlanSync.Proofs.Derived.Stored
