import BuildGraph.Encoding.Attributes
import BuildGraph.Encoding.Location
import BuildGraph.Script.Session
import BuildGraph.Settings
import BuildGraph.Proofs.Graph.Paths
import BuildGraph.Proofs.Graph.Walk
import BuildGraph.Proofs.Graph.TopologicalSort
import BuildGraph.Proofs.Operation
import BuildGraph.Proofs.Task.Realization
import BuildGraph.Proofs.Configuration.Registry
import BuildGraph.Proofs.Task.Schedule
import BuildGraph.Proofs.Configuration.Reach
import BuildGraph.Proofs.SourceSet.Registry
import BuildGraph.Proofs.Project.Evaluation
import BuildGraph.Proofs.Project.Evolution
import BuildGraph.Proofs.Project.Basic
import BuildGraph.Proofs.Project.Operations
import BuildGraph.Proofs.Script.Reachable
import BuildGraph.Proofs.Files.Distinct
import BuildGraph.Proofs.Files.Path
import BuildGraph.Proofs.Files.Resolution
import BuildGraph.Proofs.Files.Union
import BuildGraph.Proofs.SourceSet.Names
import BuildGraph.Proofs.Project.Orderly
import BuildGraph.Proofs.Project.Conventional
import BuildGraph.Proofs.Script.Conventional
import BuildGraph.Proofs.Script.Plan
import BuildGraph.Proofs.Script.History
import BuildGraph.Proofs.Script.Handlers
import BuildGraph.Proofs.Project.Growth
import BuildGraph.Proofs.Project.Supply
import BuildGraph.Proofs.Script.Action
import BuildGraph.Proofs.Script.Obligation
import BuildGraph.Proofs.Script.Processing
import BuildGraph.Proofs.Project.Outline
import BuildGraph.Proofs.Project.Parts
import BuildGraph.Proofs.Script.Completion
import BuildGraph.Proofs.Script.Interleaving
import BuildGraph.Proofs.Script.Calls
import BuildGraph.Proofs.Script.Applications
import BuildGraph.Proofs.Script.Retention
import BuildGraph.Proofs.Script.Additions
import BuildGraph.Proofs.Script.Stages
import BuildGraph.Proofs.Project.ProcessingClasspath
import BuildGraph.Proofs.Project.ProcessingTask
import BuildGraph.Proofs.Encoding.RoundTrip
import BuildGraph.Proofs.Task.Submission
import BuildGraph.Proofs.Project.Usage
import BuildGraph.Proofs.Configuration.Hierarchy
import BuildGraph.Proofs.Task.Cycle
import BuildGraph.Proofs.Configuration.Closure
import BuildGraph.Proofs.Project.Snapshot
import BuildGraph.Proofs.Script.Snapshot
import BuildGraph.Proofs.Configuration.Creation
import BuildGraph.Proofs.SourceSet.Clashes
import BuildGraph.Proofs.Project.Creation
import BuildGraph.Proofs.Project.Together
import BuildGraph.Proofs.Project.ClasspathCreation
import BuildGraph.Proofs.Project.Derivation
import BuildGraph.Proofs.Project.WiringEffect
import BuildGraph.Proofs.Project.WiringFailure
import BuildGraph.Proofs.Task.Finalization
import BuildGraph.Proofs.Script.SourceSetTask
import BuildGraph.Proofs.Text.Bytes
import BuildGraph.Proofs.Configuration.Attributes
import BuildGraph.Proofs.Files.Collection
import BuildGraph.Proofs.Project.Laziness
import BuildGraph.Proofs.Script.Laziness
import BuildGraph.Proofs.Encoding.Settings
import BuildGraph.Proofs.Configuration.Diagram
import BuildGraph.Proofs.Task.Diagram
import BuildGraph.Proofs.Task.Handles
import BuildGraph.Proofs.Script.Execution
import BuildGraph.Proofs.Script.Termination
