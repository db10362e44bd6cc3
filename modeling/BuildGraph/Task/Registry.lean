/-
  BuildGraph.Task.Registry: registered tasks and the order they have to run in.

  A registered task keeps its configurators until it is realized. Which task has to run before
  which is a graph on the names of the tasks: an edge leads from a task to one that depends on it.
-/

import BuildGraph.Graph.TopologicalSort
import BuildGraph.Task.Configurator

namespace BuildGraph

/-- A registered task. -/
structure Task where
  name : String
  body : TaskBody
  /-- What is still to be done to the body, in order of submission. -/
  pending : List Configurator := []
  realized : Bool := false

/-- A reference to a task that vouches for the type of its body. -/
structure TaskHandle where
  name : String
  kind : TaskKind
  deriving DecidableEq, Repr

/-- The handle in words. -/
def TaskHandle.text (h : TaskHandle) : String := "TaskHandle<" ++ h.kind.typeName ++ ">(" ++ h.name ++ ")"

/-- The tasks of a project in order of registration, and the pairs of a task and one that depends on it, in
    order of declaration. -/
structure Tasks where
  entries : List Task := []
  edges : List (String × String) := []
  deriving Inhabited

namespace Tasks

def names (r : Tasks) : List String := r.entries.map (·.name)

def contains (r : Tasks) (name : String) : Bool := r.entries.any (·.name == name)

def find? (r : Tasks) (name : String) : Option Task := r.entries.find? (·.name == name)

/-- The graph with an edge from each task to those that depend on it. -/
def graph (r : Tasks) : Digraph String := ⟨r.names, r.edges⟩

def get (r : Tasks) (name : String) : Except ConfigError Task :=
  match r.find? name with
  | some t => .ok t
  | none => .error (.taskNotFound name)

/-- The task called `name`, if its body has the type `kind`. -/
def named (r : Tasks) (kind : TaskKind) (name : String) : Except ConfigError TaskHandle :=
  match r.get name with
  | .error e => .error e
  | .ok t => if t.body.kind = kind then .ok ⟨name, kind⟩ else .error (.taskTypeMismatch name kind t.body.kind)

/-- Changes the tasks called `name`. -/
def update (r : Tasks) (name : String) (f : Task → Task) : Tasks :=
  { r with entries := r.entries.map fun t => if t.name = name then f t else t }

/-- Adds a task at the end, with the configurators it is to be realized with. -/
def register (r : Tasks) (name : String) (body : TaskBody) (configurators : List Configurator) :
    Except ConfigError Tasks :=
  if r.contains name then .error (.duplicateTaskName name)
  else .ok { r with entries := r.entries ++ [{ name := name, body := body, pending := configurators }] }

/-- Lets `dependent` run after `dependency`. Saying so again changes nothing. -/
def dependsOn (r : Tasks) (dependent dependency : String) : Tasks :=
  { r with edges := Digraph.connect r.edges dependency dependent }

/-- The tasks `name` depends on directly, in order of name. -/
def dependenciesOf (r : Tasks) (name : String) : Except ConfigError (List String) :=
  (r.get name).map fun _ => (r.graph.predecessors name).mergeSort (· ≤ ·)

def isRealized (r : Tasks) (name : String) : Except ConfigError Bool := (r.get name).map (·.realized)

def realizedCount (r : Tasks) : Nat := (r.entries.filter (·.realized)).length

/-- The position of `name` in order of registration. -/
def indexOf (r : Tasks) (name : String) : Nat := r.names.idxOf name

/-- A name inside quotes; only the quote itself is escaped. -/
def escapeQuotes (name : String) : String :=
  String.ofList (name.toList.flatMap fun c => if c = '"' then ['\\', '"'] else [c])

/-- The tasks with their types and dependencies as a diagram. -/
def diagram (r : Tasks) : String :=
  let nodes := r.entries.mapIdx fun i t =>
    "    " ++ toString i ++ "[\"" ++ escapeQuotes t.name ++ ": " ++ t.body.kind.shortName ++ "\"]\n"
  let edges := r.edges.map fun e =>
    "    " ++ toString (r.indexOf e.1) ++ " --> " ++ toString (r.indexOf e.2) ++ "\n"
  "graph LR\n" ++ String.join nodes ++ String.join edges

end Tasks

end BuildGraph
