/-
  BuildGraph.Project.Resolution: turning file collections into paths.

  A configuration stands for the files declared anywhere in its hierarchy; dependencies on
  modules have no files here. Each configuration is looked into once, so configurations whose
  files lead back to them do no harm, and each path is listed once, up to its components.
-/

import BuildGraph.Project.Basic

namespace BuildGraph

/-- What has been found so far: paths, and the configurations looked into. -/
structure Gathering where
  paths : List Path := []
  visited : List String := []

/-- The elements of the files of a dependency; a module has none. -/
def Dependency.elements : Dependency → List FileElement
  | .module _ => []
  | .files c => c.elements

namespace Project

/-- The paths of an output: the classes directories, then the resources directory. -/
def outputPaths (p : Project) (o : SourceSetOutput) : List Path :=
  (o.classesDirs ++ [o.resourcesDir]).map p.layout.resolve

/-- Adds what an element stands for. Looking into a configuration takes one from the depth; as every
    configuration is looked into once, their number is deep enough. -/
def gather (p : Project) : Nat → Gathering → FileElement → Except ConfigError Gathering
  | 0, g, _ => .ok g
  | _ + 1, g, .output name =>
    match p.sourceSets.get name with
    | .ok s => .ok { g with paths := Distinct.addAll g.paths (p.outputPaths s.output) }
    | .error e => .error e
  | _ + 1, g, .dir l => .ok { g with paths := Distinct.add g.paths (p.layout.resolve l) }
  | depth + 1, g, .configuration name =>
    if name ∈ g.visited then .ok g
    else match p.configurations.dependencyClosure name with
      | .ok deps => (deps.flatMap Dependency.elements).foldlM (gather p depth) { g with visited := name :: g.visited }
      | .error e => .error e

/-- The paths a file collection stands for, in the order they are come upon. -/
def resolveFiles (p : Project) (c : FileCollection) : Except ConfigError (List Path) :=
  (c.elements.foldlM (p.gather (p.configurations.entries.length + 1)) {}).map (·.paths)

end Project

end BuildGraph
