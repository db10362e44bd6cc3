/-
  BuildGraph.Script.ConfigurationAction: actions on dependency configurations.
-/

import BuildGraph.Script.Workspace

namespace BuildGraph

/-- Changes to a configuration; what is not given stays. -/
structure ConfigurationChange where
  description : Option (Option String) := none
  canBeConsumed : Option Bool := none
  canBeResolved : Option Bool := none
  attributes : List (String × String) := []

def ConfigurationChange.apply (change : ConfigurationChange) (c : Configuration) : Configuration :=
  { c with
    description := change.description.getD c.description
    canBeConsumed := change.canBeConsumed.getD c.canBeConsumed
    canBeResolved := change.canBeResolved.getD c.canBeResolved
    attributes := change.attributes.foldl (fun s e => s.set e.1 e.2) c.attributes }

inductive ConfigurationAction where
  | create (name : String) (setup : List Configurations.Setup)
  | get (name : String)
  | names
  | has (name : String)
  | configure (name : String) (change : ConfigurationChange)
  | extend (child parent : String)
  | extendsOf (name : String)
  | hierarchy (name : String)
  | addDependency (configuration : String) (dependency : Dependency)
  | dependencyClosure (name : String)
  | checkCompatible (configuration candidate : String)
  | copyAttributes (source target : String)
  | diagram

/-- The names told in the course of a set-up: that of the configuration, as often as it was asked for. -/
def Configurations.toldNames (name : String) (setup : List Configurations.Setup) : List String :=
  setup.filterMap fun
    | .tellName => some name
    | _ => none

namespace ScriptM

def runConfiguration : ConfigurationAction → ScriptM Answer
  | .create name setup => do
    onProject (ConfigM.createConfiguration name setup)
    return .created name (Configurations.toldNames name setup)
  | .get name => do
    let c ← require (·.configurations.get name)
    return .configuration (← ask (·.reportConfiguration c))
  | .names => return .texts (← ask (·.configurations.names))
  | .has name => return .flag (← ask (·.configurations.contains name))
  | .configure name change => do
    onProject (ConfigM.onConfigurations (·.update name change.apply))
    return .ok
  | .extend child parent => do
    onProject (ConfigM.extendConfiguration child parent)
    return .ok
  | .extendsOf name => return .texts (← require (·.configurations.extendsOf name))
  | .hierarchy name => return .texts (← require (·.configurations.hierarchy name))
  | .addDependency configuration dependency => do
    onProject (ConfigM.addDependency configuration dependency)
    return .count (← ask (·.configurations.declaredOn configuration)).length
  | .dependencyClosure name => return .dependencies (← require (·.configurations.dependencyClosure name))
  | .checkCompatible configuration candidate => do
    let candidate ← require (·.configurations.get candidate)
    let c ← require (·.configurations.get configuration)
    require fun _ => AttributeSet.checkCompatible c.name c.attributes candidate.attributes
    return .ok
  | .copyAttributes source target => do
    let s ← require (·.configurations.get source)
    onProject (ConfigM.onConfigurations (·.update target fun c =>
      { c with attributes := s.attributes.copyTo c.attributes }))
    return .ok
  | .diagram => return .text (← ask (·.configurations.diagram))

end ScriptM

end BuildGraph
