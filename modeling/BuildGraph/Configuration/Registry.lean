/-
  BuildGraph.Configuration.Registry: dependency configurations and what they extend.

  A configuration is a named classpath to which dependencies are declared. It may extend others
  and then stands for their dependencies too. The extensions form a graph on the names of the
  configurations; an extension that would close a cycle is refused.

  - `hierarchy`: a configuration and all it extends, depth first.
  - `dependencyClosure`: the dependencies declared anywhere in that hierarchy.
  - `create`: a configuration set up by a list of instructions; if one of them fails, the
    configuration stays as it is at that point.
-/

import BuildGraph.Attributes
import BuildGraph.Files.Collection
import BuildGraph.Graph.Walk

namespace BuildGraph

/-- Something a configuration depends on. -/
inductive Dependency where
  /-- A module found elsewhere, by its coordinates. It has no files here. -/
  | module (coordinates : String)
  /-- Files of the project. -/
  | files (files : FileCollection)
  deriving Repr, BEq

/-- A named classpath. -/
structure Configuration where
  name : String
  description : Option String := none
  canBeConsumed : Bool := true
  canBeResolved : Bool := true
  attributes : AttributeSet := .empty
  /-- What was declared on this configuration itself. -/
  dependencies : List Dependency := []
  deriving Repr

/-- The configurations of a project in order of creation, and the pairs of a configuration and one it extends,
    in order of extension. -/
structure Configurations where
  entries : List Configuration := []
  extensions : List (String × String) := []
  deriving Repr, Inhabited

namespace Configurations

def names (r : Configurations) : List String := r.entries.map (·.name)

def contains (r : Configurations) (name : String) : Bool := r.entries.any (·.name == name)

def find? (r : Configurations) (name : String) : Option Configuration := r.entries.find? (·.name == name)

/-- The graph with an edge from each configuration to those it extends. -/
def graph (r : Configurations) : Digraph String := ⟨r.names, r.extensions⟩

def get (r : Configurations) (name : String) : Except ConfigError Configuration :=
  match r.find? name with
  | some c => .ok c
  | none => .error (.configurationNotFound name)

/-- Changes the configurations called `name`. -/
def updateAll (r : Configurations) (name : String) (f : Configuration → Configuration) : Configurations :=
  { r with entries := r.entries.map fun c => if c.name = name then f c else c }

def update (r : Configurations) (name : String) (f : Configuration → Configuration) :
    Except ConfigError Configurations :=
  if r.contains name then .ok (r.updateAll name f) else .error (.configurationNotFound name)

/-- A blank configuration called `name`. -/
def declare (r : Configurations) (name : String) : Except ConfigError Configurations :=
  if r.contains name then .error (.duplicateConfigurationName name)
  else .ok { r with entries := r.entries ++ [{ name := name }] }

/-- Makes `child` extend `parent`. Extending the same parent again changes nothing. -/
def extend (r : Configurations) (child parent : String) : Except ConfigError Configurations :=
  if !r.contains child then .error (.configurationNotFound child)
  else if !r.contains parent then .error (.configurationNotFound parent)
  else if r.graph.connects parent child then .error (.cyclicExtension child parent)
  else .ok { r with extensions := Digraph.connect r.extensions child parent }

/-- What `name` extends directly, in order of extension. -/
def extendsOf (r : Configurations) (name : String) : Except ConfigError (List String) :=
  if r.contains name then .ok (r.graph.successors name) else .error (.configurationNotFound name)

/-- `name` and all it extends, directly or not. -/
def hierarchy (r : Configurations) (name : String) : Except ConfigError (List String) :=
  if r.contains name then .ok (r.graph.preorder name) else .error (.configurationNotFound name)

/-- Declares `d` on `name`, unless an equal dependency is declared there. -/
def addDependency (r : Configurations) (name : String) (d : Dependency) : Except ConfigError Configurations :=
  r.update name fun c => { c with dependencies := Distinct.add c.dependencies d }

/-- What is declared on the configuration called `name`. -/
def declaredOn (r : Configurations) (name : String) : List Dependency :=
  match r.find? name with
  | some c => c.dependencies
  | none => []

/-- All that is declared on `name` or on anything it extends, in the order of its hierarchy. -/
def dependencyClosure (r : Configurations) (name : String) : Except ConfigError (List Dependency) :=
  (r.hierarchy name).map fun names => Distinct.ofList (names.flatMap r.declaredOn)

/-- An instruction for a configuration being created. -/
inductive Setup where
  | canBeConsumed (value : Bool)
  | canBeResolved (value : Bool)
  | description (text : String)
  | attribute (key value : String)
  | extendsFrom (parent : String)
  | copyAttributes (source : AttributeSet)
  /-- Asks for the name of the configuration and changes nothing. -/
  | tellName
  deriving Repr

/-- Carries out one instruction for `name`. -/
def Setup.run (name : String) (r : Configurations) : Setup → Except ConfigError Configurations
  | .canBeConsumed value => .ok (r.updateAll name fun c => { c with canBeConsumed := value })
  | .canBeResolved value => .ok (r.updateAll name fun c => { c with canBeResolved := value })
  | .description text => .ok (r.updateAll name fun c => { c with description := some text })
  | .attribute key value => .ok (r.updateAll name fun c => { c with attributes := c.attributes.set key value })
  | .extendsFrom parent => r.extend name parent
  | .copyAttributes source =>
    .ok (r.updateAll name fun c => { c with attributes := source.copyTo c.attributes })
  | .tellName => .ok r

/-- Carries out instructions until one fails; the registry is what they made of it. -/
def runSetup (name : String) : List Setup → Configurations → Except ConfigError Unit × Configurations
  | [], r => (.ok (), r)
  | s :: rest, r =>
    match s.run name r with
    | .ok r' => runSetup name rest r'
    | .error e => (.error e, r)

/-- Creates a configuration and sets it up. -/
def create (r : Configurations) (name : String) (setup : List Setup) :
    Except ConfigError Unit × Configurations :=
  match r.declare name with
  | .error e => (.error e, r)
  | .ok r' => runSetup name setup r'

/-- The position of `name` in order of creation. -/
def indexOf (r : Configurations) (name : String) : Nat := r.names.idxOf name

/-- The configurations and their extensions as a diagram. -/
def diagram (r : Configurations) : String :=
  let nodes := r.names.mapIdx fun i name => "    " ++ toString i ++ "[\"" ++ name ++ "\"]\n"
  let edges := r.extensions.map fun e =>
    "    " ++ toString (r.indexOf e.1) ++ " -- \"extendsFrom\" --> " ++ toString (r.indexOf e.2) ++ "\n"
  "graph LR\n" ++ String.join nodes ++ String.join edges

end Configurations

end BuildGraph
