/-
  BuildGraph.Task.Body: what a task records about the work it stands for.

  No task is ever run. A body holds the inputs and outputs of the work, each empty until a
  configurator fills it in, and knows which required input is missing. Inputs that are computed
  on demand are kept as the number of a lazy value.
-/

import BuildGraph.Files.Collection
import BuildGraph.Task.Kind

namespace BuildGraph

/-- The number of a lazy value of a project. -/
abbrev ProviderId := Nat

/-- Compiles the Java sources of a source set. -/
structure JavaCompile where
  sourceSet : String := ""
  classpath : FileCollection := .empty
  destination : List Location := []
  deriving Repr

/-- Copies the resources of a source set to its output. -/
structure ProcessResources where
  sourceSet : String := ""
  destination : Option Location := none
  deriving Repr

/-- Stands for all classes of a source set. -/
structure Classes where
  sourceSet : String := ""
  deriving Repr

/-- Finds out the name of the application's main class. -/
structure ResolveMainClassName where
  configuredMainClass : Option ProviderId := none
  outputFile : Option Location := none
  deriving Repr

/-- What both ahead-of-time processing tasks have in common. -/
structure ProcessingSpec where
  sourcesOutput : Option Location := none
  resourcesOutput : Option Location := none
  classesOutput : Option Location := none
  groupId : Option ProviderId := none
  artifactId : Option ProviderId := none
  /-- The compiled classes to process. -/
  classpathRoots : FileCollection := .empty
  /-- The name of the processing classpath. -/
  classpath : Option String := none
  deriving Repr

/-- Processes the application ahead of time. -/
structure ProcessAot where
  spec : ProcessingSpec := {}
  applicationClass : Option ProviderId := none
  deriving Repr

/-- Processes the tests ahead of time. -/
structure ProcessTestAot where
  spec : ProcessingSpec := {}
  /-- The configuration with the dependencies of the tests as declared. -/
  testRuntimeClasspath : Option String := none
  deriving Repr

/-- Keeps a log of what its configurators saw, and lacks the input it is told to lack. -/
structure CustomTask where
  log : List String := []
  needs : Option String := none
  deriving Repr, DecidableEq

inductive TaskBody where
  | javaCompile (task : JavaCompile)
  | processResources (task : ProcessResources)
  | classes (task : Classes)
  | resolveMainClassName (task : ResolveMainClassName)
  | processAot (task : ProcessAot)
  | processTestAot (task : ProcessTestAot)
  | custom (type : CustomType) (task : CustomTask)
  deriving Repr

/-- The first required property without a value, in the order they are checked. -/
def ProcessingSpec.missingInput (s : ProcessingSpec) : Option String :=
  if s.sourcesOutput.isNone then some "sourcesOutput"
  else if s.resourcesOutput.isNone then some "resourcesOutput"
  else if s.classesOutput.isNone then some "classesOutput"
  else if s.groupId.isNone then some "groupId"
  else if s.artifactId.isNone then some "artifactId"
  else if s.classpathRoots.isEmpty then some "classpathRoots"
  else if s.classpath.isNone then some "classpath"
  else none

namespace TaskBody

def kind : TaskBody → TaskKind
  | .javaCompile _ => .javaCompile
  | .processResources _ => .processResources
  | .classes _ => .classes
  | .resolveMainClassName _ => .resolveMainClassName
  | .processAot _ => .processAot
  | .processTestAot _ => .processTestAot
  | .custom type _ => .custom type

/-- A body of the given type with nothing filled in. -/
def blank : TaskKind → TaskBody
  | .javaCompile => .javaCompile {}
  | .processResources => .processResources {}
  | .classes => .classes {}
  | .resolveMainClassName => .resolveMainClassName {}
  | .processAot => .processAot {}
  | .processTestAot => .processTestAot {}
  | .custom type => .custom type {}

/-- The first required property that has no value. -/
def missingInput : TaskBody → Option String
  | .javaCompile _ => none
  | .processResources t => if t.destination.isNone then some "destinationDir" else none
  | .classes _ => none
  | .resolveMainClassName t => if t.outputFile.isNone then some "outputFile" else none
  | .processAot t =>
    t.spec.missingInput <|> if t.applicationClass.isNone then some "applicationClass" else none
  | .processTestAot t =>
    t.spec.missingInput <|> if t.testRuntimeClasspath.isNone then some "testRuntimeClasspath" else none
  | .custom type t => if type.checksInputs then t.needs else none

@[simp] theorem kind_blank (k : TaskKind) : (blank k).kind = k := by cases k <;> rfl

end TaskBody

end BuildGraph
