/-
  BuildGraph.Script.Workspace: what the actions of a script work on, and what they answer.

  A script configures a project step by step. It gives names to lazy values and properties to
  refer to them later. A name may be given again; what it counts stays what it was until it is
  given to another counted value.
-/

import BuildGraph.Processing.Wiring
import BuildGraph.Project.Evaluation
import BuildGraph.Project.Resolution

namespace BuildGraph

/-- A project, and the names a script has given to its values. -/
structure Workspace where
  project : Project
  values : List (String × ProviderId) := []
  properties : List (String × PropertyId) := []
  /-- The lazy values whose computations are counted, by the name they were made under. -/
  counted : List (String × ProviderId) := []

/-- Actions of a script. One that fails leaves behind what it did before. -/
abbrev ScriptM := EStateM ConfigError Workspace

namespace ScriptM

/-- Runs an operation on the project. -/
def onProject {α : Type} (m : ConfigM α) : ScriptM α := fun w =>
  match m w.project with
  | .ok a p => .ok a { w with project := p }
  | .error e p => .error e { w with project := p }

/-- Asks the project. -/
def ask {α : Type} (f : Project → α) : ScriptM α := return f (← get).project

/-- Asks the project for something it may not have. -/
def require {α : Type} (f : Project → Except ConfigError α) : ScriptM α := onProject do ConfigM.ofExcept (f (← get))

/-- The number of the value called `name`; a name never given stands for a value that is not there. -/
def valueId (name : String) : ScriptM ProviderId := do
  let w ← get
  return (w.values.lookup name).getD w.project.nextProvider

/-- The number of the property called `name`. -/
def propertyId (name : String) : ScriptM PropertyId := do
  let w ← get
  return (w.properties.lookup name).getD w.project.properties.length

/-- Adds a lazy value to the project. -/
def addValue (cell : Provider) : ScriptM ProviderId := do
  let id ← ask (·.nextProvider)
  onProject (ConfigM.addProviders [cell])
  return id

/-- Calls the lazy value `id` by `name`. -/
def nameValue (name : String) (id : ProviderId) : ScriptM Unit :=
  modify fun w => { w with values := (name, id) :: w.values }

/-- Counts the computations of `id` under `name`. -/
def countRuns (name : String) (id : ProviderId) : ScriptM Unit :=
  modify fun w => { w with counted := (name, id) :: w.counted }

/-- How often the value counted under `name` was computed. -/
def runsOf (name : String) : ScriptM Nat := do
  let w ← get
  return ((w.counted.lookup name).bind fun id => w.project.providers[id]?.map (·.runs)).getD 0

/-- Calls the property `id` by `name`. -/
def nameProperty (name : String) (id : PropertyId) : ScriptM Unit :=
  modify fun w => { w with properties := (name, id) :: w.properties }

end ScriptM

/-- A configuration with its place among the others. -/
structure ConfigurationReport where
  configuration : Configuration
  parents : List String
  hierarchy : List String

/-- A task with its place among the others. -/
structure TaskReport where
  name : String
  dependencies : List String
  realized : Bool

/-- All of a project that can be seen from outside without realizing a task. -/
structure ProjectReport where
  name : String
  group : String
  projectDir : Path
  buildDir : Path
  state : ProcessingState
  sourceSets : List SourceSet
  configurations : List ConfigurationReport
  tasks : List TaskReport

/-- What a question to a file collection is answered with. -/
inductive CollectionAnswer where
  | size (n : Nat)
  | holds (b : Bool)
  deriving DecidableEq, Repr

/-- What an action is answered with. -/
inductive Answer where
  | ok
  | flag (b : Bool)
  | count (n : Nat)
  | text (s : String)
  | optionalText (s : Option String)
  | optionalCount (n : Option Nat)
  | texts (ss : List String)
  | paths (ps : List Path)
  | elements (c : FileCollection)
  | collection (answers : List CollectionAnswer) (c : FileCollection)
  | dependencies (ds : List Dependency)
  | state (s : ProcessingState)
  | plugin (applied : Bool) (pending : Nat)
  | sourceSet (s : SourceSet)
  | created (configuration : String) (seen : List String)
  | configuration (c : ConfigurationReport)
  | registered (task : String) (realized : Bool)
  | handle (h : TaskHandle) (same : Bool)
  /-- A task's body, and those of its lazy values that are computed. -/
  | body (b : TaskBody) (resolved : List ProviderId)
  | project (p : ProjectReport)

namespace Project

def reportConfiguration (p : Project) (c : Configuration) : ConfigurationReport where
  configuration := c
  parents := p.configurations.graph.successors c.name
  hierarchy := p.configurations.graph.preorder c.name

def reportTask (p : Project) (t : Task) : TaskReport where
  name := t.name
  dependencies := (p.tasks.graph.predecessors t.name).mergeSort (· ≤ ·)
  realized := t.realized

def report (p : Project) : ProjectReport where
  name := p.name
  group := p.group
  projectDir := p.layout.projectDir
  buildDir := p.layout.buildDir
  state := p.processingState
  sourceSets := p.sourceSets.toList
  configurations := p.configurations.entries.map p.reportConfiguration
  tasks := p.tasks.entries.map p.reportTask

/-- How many source sets, configurations, tasks and realized tasks there are. -/
def counts (p : Project) : List Nat :=
  [p.sourceSets.names.length, p.configurations.names.length, p.tasks.names.length, p.tasks.realizedCount]

end Project

end BuildGraph
