import WorkPlan.Decimal.Binary64
import WorkPlan.Decimal.Basic
import WorkPlan.Decimal.Layout
import WorkPlan.Decimal.Reader
import WorkPlan.Text.Blank
import WorkPlan.Text.Hex
import WorkPlan.Text.CodePoints
import WorkPlan.Text.Letter
import WorkPlan.Text.Unprintable
import WorkPlan.Text.Quoted
import WorkPlan.Data.Keyed
import WorkPlan.Data.Tree
import WorkPlan.Json.Value
import WorkPlan.Json.Reader
import WorkPlan.Json.Printer
import WorkPlan.Yaml.Scalar
import WorkPlan.Yaml.Printer
import WorkPlan.Toml.Lexical
import WorkPlan.Toml.Scalar
import WorkPlan.Toml.Reader
import WorkPlan.Codec.Record
import WorkPlan.Settings.Basic
import WorkPlan.Settings.Loading
import WorkPlan.Pattern.Basic
import WorkPlan.Pattern.Reader
import WorkPlan.Log.Condition
import WorkPlan.Log.Filter
import WorkPlan.Log.Event
import WorkPlan.Step.Name
import WorkPlan.Step.Work
import WorkPlan.Step.Basic
import WorkPlan.Handoff
import WorkPlan.Graph.Basic
import WorkPlan.Graph.Discovery
import WorkPlan.Graph.Order
import WorkPlan.Graph.Validation
import WorkPlan.Graph.Layers
import WorkPlan.Workflow.Retry
import WorkPlan.Workflow.Manifest
import WorkPlan.Workflow.Document
import WorkPlan.Workflow.Target
import WorkPlan.Workflow.Compilation
import WorkPlan.Workflow.Definition
import WorkPlan.Run.Basic
import WorkPlan.Run.Sequential
import WorkPlan.Run.Concurrent
import WorkPlan.Plan
import WorkPlan.Inspect
import WorkPlan.Proofs.Edges
import WorkPlan.Proofs.FirstError
import WorkPlan.Proofs.Overlay
import WorkPlan.Proofs.Reachability
import WorkPlan.Proofs.Sweeping
import WorkPlan.Proofs.Acceptance
import WorkPlan.Proofs.Layering
import WorkPlan.Proofs.Answers
import WorkPlan.Proofs.Staging
import WorkPlan.Proofs.SequentialRun
import WorkPlan.Proofs.Completions
import WorkPlan.Proofs.Moves
import WorkPlan.Proofs.SideBySide
import WorkPlan.Proofs.Agreement
import WorkPlan.Proofs.Unstaged
import WorkPlan.Proofs.HandedOn
import WorkPlan.Proofs.Relay
import WorkPlan.Proofs.Evaluation
import WorkPlan.Proofs.Traces
import WorkPlan.Proofs.Interleaving
import WorkPlan.Proofs.Precedence
import WorkPlan.Proofs.Mirroring
import WorkPlan.Proofs.Machine
import WorkPlan.Proofs.Chaining
import WorkPlan.Proofs.Cycles
import WorkPlan.Proofs.Nesting
import WorkPlan.Proofs.Finite
import WorkPlan.Proofs.Rounding
import WorkPlan.Proofs.Numerals
import WorkPlan.Proofs.JsonText
import WorkPlan.Proofs.Storing
import WorkPlan.Proofs.Restoring
import WorkPlan.Proofs.RoundTrip
import WorkPlan.Proofs.DocumentText
import WorkPlan.Proofs.Readback
import WorkPlan.Proofs.Retrying
import WorkPlan.Proofs.Resolution
import WorkPlan.Proofs.Calls
import WorkPlan.Proofs.Arguments
import WorkPlan.Proofs.Merging
import WorkPlan.Proofs.Manifests
import WorkPlan.Proofs.Construction
import WorkPlan.Proofs.Requests
import WorkPlan.Proofs.Logging
import WorkPlan.Proofs.Tolerance
import WorkPlan.Proofs.RecordFields
import WorkPlan.Proofs.Naming
import WorkPlan.Proofs.Drafting
import WorkPlan.Proofs.Fallback
import WorkPlan.Proofs.Numbering
import WorkPlan.Proofs.InSight
