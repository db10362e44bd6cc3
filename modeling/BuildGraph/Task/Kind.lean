/-
  BuildGraph.Task.Kind: the types of tasks.
-/

namespace BuildGraph

/-- A type of tasks that the author of a build brings along. -/
structure CustomType where
  /-- The qualified name of the type. -/
  name : String
  /-- Whether its tasks check their inputs before they run. -/
  checksInputs : Bool
  deriving DecidableEq, Repr

/-- The type of a task's body. -/
inductive TaskKind where
  | javaCompile
  | processResources
  | classes
  | resolveMainClassName
  | processAot
  | processTestAot
  | custom (type : CustomType)
  deriving DecidableEq, Repr

namespace TaskKind

/-- The qualified name of the type. -/
def typeName : TaskKind → String
  | .javaCompile => "aotgraph::java::JavaCompile"
  | .processResources => "aotgraph::java::ProcessResources"
  | .classes => "aotgraph::java::Classes"
  | .resolveMainClassName => "aotgraph::boot::ResolveMainClassName"
  | .processAot => "aotgraph::aot::tasks::ProcessAot"
  | .processTestAot => "aotgraph::aot::tasks::ProcessTestAot"
  | .custom type => type.name

/-- What follows the last `::` of a qualified name. -/
def lastSegment : List Char → List Char
  | cs => go cs cs
where
  /-- `best` is what followed the last `::` met before `cs`. -/
  go (best : List Char) : List Char → List Char
    | ':' :: ':' :: rest => go rest rest
    | _ :: rest => go best rest
    | [] => best

/-- The name of the type without what qualifies it. -/
def shortName (k : TaskKind) : String := String.ofList (lastSegment k.typeName.toList)

end TaskKind

end BuildGraph
