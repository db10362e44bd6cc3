/-
  BuildGraph.Project.Basic: the build description of one project.

  A project owns its source sets, configurations and tasks, and the values they share: its group
  and build directory, further properties, and lazy values. A lazy value (`Provider`) holds a
  recipe (`Thunk`) until it is first asked for and its value from then on.

  Operations that change a project live in `ConfigM`. When one fails, what it did before failing
  stays done.
-/

import BuildGraph.Configuration.Registry
import BuildGraph.Task.Registry

namespace BuildGraph

/-- What a lazy value takes from a task: a text at once, or another lazy value. -/
inductive Reading where
  | text (value : String)
  | provider (id : ProviderId)
  deriving DecidableEq, Repr

/-- How a lazy value is computed. -/
inductive Thunk where
  /-- By a function of how often it has been run, this run included. -/
  | compute (f : Nat → String)
  /-- The property's value at that time. -/
  | property (id : PropertyId)
  /-- The group of the project at that time. -/
  | group
  /-- The path of a location at that time. -/
  | location (l : Location)
  /-- From another lazy value. -/
  | map (source : ProviderId) (f : String → String)
  /-- From the body of a task, which is realized for it. -/
  | fromTask (task : String) (read : TaskBody → Reading)

/-- A value that is computed when it is first asked for, and kept. -/
structure Provider where
  thunk : Thunk
  value : Option String := none
  /-- How often the thunk was run. -/
  runs : Nat := 0

/-- A lazy value that is there from the start. -/
def Provider.of (value : String) : Provider := { thunk := .compute fun _ => value, value := some value }

structure Project where
  name : String
  group : String := ""
  layout : Layout
  sourceSets : SourceSets := {}
  configurations : Configurations := {}
  tasks : Tasks := {}
  properties : List String := []
  providers : List Provider := []
  deriving Inhabited

/-- Operations on a project. One that fails leaves behind what it did before. -/
abbrev ConfigM := EStateM ConfigError Project

namespace Project

def property (p : Project) (id : PropertyId) : String := p.properties[id]?.getD ""

def isResolved (p : Project) (id : ProviderId) : Bool := (p.providers[id]?.bind (·.value)).isSome

/-- The number the next lazy value will get. -/
def nextProvider (p : Project) : ProviderId := p.providers.length

end Project

namespace ConfigM

/-- Fails with the error of `r`, or goes on with its value. -/
def ofExcept {α : Type} : Except ConfigError α → ConfigM α
  | .ok a => pure a
  | .error e => throw e

def onSourceSets (f : SourceSets → Except ConfigError SourceSets) : ConfigM Unit := fun p =>
  match f p.sourceSets with
  | .ok r => .ok () { p with sourceSets := r }
  | .error e => .error e p

def onConfigurations (f : Configurations → Except ConfigError Configurations) : ConfigM Unit := fun p =>
  match f p.configurations with
  | .ok r => .ok () { p with configurations := r }
  | .error e => .error e p

def onTasks (f : Tasks → Except ConfigError Tasks) : ConfigM Unit := fun p =>
  match f p.tasks with
  | .ok r => .ok () { p with tasks := r }
  | .error e => .error e p

/-- Creates a configuration; if its set-up fails, it stays as far as it came. -/
def createConfiguration (name : String) (setup : List Configurations.Setup) : ConfigM Unit := fun p =>
  match p.configurations.create name setup with
  | (.ok (), r) => .ok () { p with configurations := r }
  | (.error e, r) => .error e { p with configurations := r }

/-- Registers a task with the configurators it is to be realized with. -/
def registerTask (name : String) (body : TaskBody) (configurators : List Configurator) : ConfigM Unit :=
  onTasks (·.register name body configurators)

def addDependency (configuration : String) (d : Dependency) : ConfigM Unit :=
  onConfigurations (·.addDependency configuration d)

def extendConfiguration (child parent : String) : ConfigM Unit := onConfigurations (·.extend child parent)

/-- Lets the task `dependent` run after the task `dependency`. -/
def dependsOn (dependent dependency : String) : ConfigM Unit := onTasks fun r => .ok (r.dependsOn dependent dependency)

/-- Adds lazy values; they get the next numbers in order. -/
def addProviders (cells : List Provider) : ConfigM Unit :=
  modify fun p => { p with providers := p.providers ++ cells }

end ConfigM

end BuildGraph
