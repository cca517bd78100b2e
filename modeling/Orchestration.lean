import Orchestration.Catalog.Operation
import Orchestration.Catalog.Signature
import Orchestration.CommandLine.Arguments
import Orchestration.CommandLine.Command
import Orchestration.CommandLine.Project
import Orchestration.CommandLine.Run
import Orchestration.Config.Basic
import Orchestration.Config.Decode
import Orchestration.Config.Fault
import Orchestration.Config.Layout
import Orchestration.Config.Load
import Orchestration.Digest.Blake3
import Orchestration.Digest.Fingerprint
import Orchestration.Document.Basic
import Orchestration.Execution.Clock
import Orchestration.Execution.Machine
import Orchestration.Execution.Outcome
import Orchestration.Execution.Settlement
import Orchestration.Files.Access
import Orchestration.Files.Path
import Orchestration.Files.Pattern
import Orchestration.Files.Tree
import Orchestration.Generation.Artifact
import Orchestration.Generation.Batch
import Orchestration.Json.Basic
import Orchestration.Main
import Orchestration.Naming.Allocator
import Orchestration.Naming.Identifier
import Orchestration.Naming.Plural
import Orchestration.Naming.SnakeCase
import Orchestration.Plan.Basic
import Orchestration.Plan.Compile
import Orchestration.Plan.Json
import Orchestration.Plan.Listing
import Orchestration.Plan.Output
import Orchestration.Plan.Params
import Orchestration.PlanError
import Orchestration.Render.MultiQuery
import Orchestration.Render.Template
import Orchestration.Schema.Basic
import Orchestration.Schema.ParamPath
import Orchestration.Schema.Resolved
import Orchestration.Table
import Orchestration.Text.Blank
import Orchestration.Text.Segments
import Orchestration.Toml.Scalar
import Orchestration.Toml.Tree
import Orchestration.TypeExpr.Basic
import Orchestration.TypeExpr.Parser
import Orchestration.TypeExpr.Surface
import Orchestration.Yaml.Scalar
import Orchestration.Yaml.Source
import Orchestration.Yaml.Token
import Orchestration.Yaml.Tree
import Orchestration.Proofs.Except
import Orchestration.Proofs.Naming.Allocator
import Orchestration.Proofs.Naming.Identifier
import Orchestration.Proofs.Plan.Params
import Orchestration.Proofs.Plan.Walk
import Orchestration.Proofs.Plan.Success
import Orchestration.Proofs.Plan.ResultNames
import Orchestration.Proofs.Plan.Bindings
import Orchestration.Proofs.Plan.Output
import Orchestration.Proofs.Execution.Settlement
import Orchestration.Proofs.Execution.Trace
import Orchestration.Proofs.Execution.Concurrent
import Orchestration.Proofs.Execution.Sequence
import Orchestration.Proofs.Execution.Stage
import Orchestration.Proofs.Execution.Transaction
import Orchestration.Proofs.Execution.Calls
import Orchestration.Proofs.Execution.Standing
import Orchestration.Proofs.Execution.Position
import Orchestration.Proofs.Execution.Scenario
import Orchestration.Proofs.Execution.Cancellation
import Orchestration.Proofs.Execution.Succession
import Orchestration.Proofs.Files.Directories
import Orchestration.Proofs.Files.Operations
import Orchestration.Proofs.Generation.Artifact
import Orchestration.Proofs.Generation.Batch
import Orchestration.Proofs.Config.Faults
import Orchestration.Proofs.Generation.Clash
import Orchestration.Proofs.Json.Compact
import Orchestration.Proofs.Digest.Fingerprint
import Orchestration.Proofs.Digest.Blocks
import Orchestration.Proofs.Plan.Document
import Orchestration.Proofs.Plan.Equality
import Orchestration.Proofs.Text.Blank
import Orchestration.Proofs.Naming.ModulePath
import Orchestration.Proofs.TypeExpr.Grammar
import Orchestration.Proofs.Catalog.Agreement
import Orchestration.Proofs.Generation.Frame
import Orchestration.Proofs.Generation.Writing
import Orchestration.Proofs.Generation.Policy
import Orchestration.Proofs.Generation.Confinement
import Orchestration.Proofs.Naming.Lead
import Orchestration.Proofs.Generation.Introduced
import Orchestration.Proofs.TypeExpr.Surface
import Orchestration.Proofs.Catalog.Results
import Orchestration.Proofs.Schema.Output
import Orchestration.Proofs.Plan.Sources
import Orchestration.Proofs.Plan.GivenNames
import Orchestration.Proofs.Render.CodeLines
import Orchestration.Proofs.Plan.Refusal
import Orchestration.Proofs.Catalog.Analysis
import Orchestration.Proofs.TypeExpr.Display
import Orchestration.Proofs.Files.Spelling
import Orchestration.Proofs.Plan.WrapperName
import Orchestration.Proofs.Files.Pattern
import Orchestration.Proofs.Files.Site
import Orchestration.Proofs.Files.Search
import Orchestration.Proofs.Config.Relocation
import Orchestration.Proofs.Execution.FirstFailure
import Orchestration.Proofs.TypeExpr.Canonical
import Orchestration.Proofs.Plan.Mirror
import Orchestration.Proofs.Generation.Conflict
import Orchestration.Proofs.Naming.SnakeForm
import Orchestration.Proofs.Naming.Claims
import Orchestration.Proofs.TypeExpr.Owned
import Orchestration.Proofs.Catalog.Arguments
import Orchestration.Proofs.Plan.Registration
import Orchestration.Proofs.Render.ParamTypes
import Orchestration.Proofs.Text.Segments
import Orchestration.Proofs.Schema.Resolved
import Orchestration.Proofs.Schema.ParamPath
import Orchestration.Proofs.Plan.SharedPaths
