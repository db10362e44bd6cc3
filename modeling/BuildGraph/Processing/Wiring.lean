/-
  BuildGraph.Processing.Wiring: the processing tasks and their place in the build.

  A processing task reads the compiled classes of one source set, the input, and writes the
  content of another, the derived one, whose compilation has to wait for it.
-/

import BuildGraph.Processing.Classpath
import BuildGraph.Project.Conventions

namespace BuildGraph

open SourceSetName

/-- What is processed. -/
inductive ProcessingKind where
  /-- The application. -/
  | application
  /-- The tests of the application in the source set `main`, whose output they need. -/
  | tests (main : String)
  deriving DecidableEq, Repr

/-- The name of the processing task. -/
def ProcessingKind.taskName : ProcessingKind → String
  | .application => "processAot"
  | .tests _ => "processTestAot"

/-- Where a processing task writes. -/
structure ProcessingOutputs where
  sourcesDir : Location
  resourcesDir : Location
  classesDir : Location
  deriving Repr

/-- The outputs for the source set `derived`: its first directories, and a classes directory of its own. -/
def Project.outputsFor (p : Project) (task derived : String) : Except ConfigError ProcessingOutputs :=
  match p.sourceSets.get derived with
  | .error e => .error e
  | .ok s =>
    match s.java.head?, s.resources.head? with
    | none, _ => .error (.missingTaskInput task "sourcesOutput")
    | _, none => .error (.missingTaskInput task "resourcesOutput")
    | some sources, some resources => .ok ⟨sources, resources, .build ⟨"generated/" ++ derived ++ "Classes"⟩⟩

namespace ConfigM

/-- The inputs and outputs of a processing task whose group and artifact are the lazy values `groupId` and
    `artifactId`. -/
def processingSpec (outputs : ProcessingOutputs) (groupId artifactId : ProviderId) (roots : FileCollection)
    (classpath : String) : ProcessingSpec where
  sourcesOutput := some outputs.sourcesDir
  resourcesOutput := some outputs.resourcesDir
  classesOutput := some outputs.classesDir
  groupId := some groupId
  artifactId := some artifactId
  classpathRoots := roots
  classpath := some classpath

/-- Registers the processing task together with the lazy values it refers to: the group, the project's name,
    and for the application its main class. -/
def registerProcessingTask (kind : ProcessingKind) (input classpath : String) (roots : FileCollection)
    (outputs : ProcessingOutputs) : ConfigM Unit := do
  let p ← get
  let first := p.nextProvider
  let spec := processingSpec outputs first (first + 1) roots classpath
  let shared : List Provider := [{ thunk := .group }, { thunk := .compute fun _ => p.name }]
  match kind with
  | .application =>
    registerTask kind.taskName (.blank .processAot)
      [.change (.processAot fun t => { t with spec := spec, applicationClass := some (first + 2) })]
    addProviders (shared ++ [{ thunk := .fromTask mainClassTask TaskBody.mainClass }])
  | .tests _ =>
    registerTask kind.taskName (.blank .processTestAot)
      [.change (.processTestAot fun t =>
        { t with spec := spec, testRuntimeClasspath := some (implementation input) })]
    addProviders shared

/-- What has to be there before a processing task can be wired: the derived source set with its compile and
    resource tasks, the input, and for the application the task that knows its main class. Gives the input. -/
def requireProcessingParts (kind : ProcessingKind) (derived input : String) : ConfigM SourceSet := do
  let p ← get
  let _ ← ofExcept (p.sourceSets.get derived)
  let _ ← ofExcept (p.tasks.get (compileJava derived))
  let _ ← ofExcept (p.tasks.get (processResources derived))
  let inputSet ← ofExcept (p.sourceSets.get input)
  if kind = .application then
    let _ ← ofExcept (p.tasks.named .resolveMainClassName mainClassTask)
  return inputSet

/-- Puts the output of `input` on the classpath of the processing task, that of the application before it. -/
def declareProcessingInput (kind : ProcessingKind) (input classpath : String) : ConfigM Unit := do
  match kind with
  | .tests main => addDependency classpath (.files (.output main))
  | .application => pure ()
  addDependency classpath (.files (.output input))

/-- Registers the processing task of `kind`, which reads the classes of `input` with `classpath`, and makes the
    compilation of `derived` wait for it. The classes it writes go on the runtime classpath of `input`. -/
def wireProcessingTask (kind : ProcessingKind) (derived input classpath : String) (outputs : ProcessingOutputs) :
    ConfigM String := do
  let inputSet ← requireProcessingParts kind derived input
  let roots := FileCollection.ofList (inputSet.output.classesDirs.map .dir)
  declareProcessingInput kind input classpath
  onSourceSets (·.update input fun s =>
    { s with runtimeClasspath := s.runtimeClasspath.add (.dir outputs.classesDir) })
  extendConfiguration (compileClasspath derived) classpath
  registerProcessingTask kind input classpath roots outputs
  addDependency (implementation derived) (.files (.dir outputs.classesDir))
  dependsOn (compileJava derived) kind.taskName
  dependsOn (processResources derived) kind.taskName
  return kind.taskName

end ConfigM

/-- How far ahead-of-time processing has come. -/
inductive ProcessingState where
  | unconfigured
  /-- The derived source sets are there, but nothing fills them. -/
  | basePluginSeen
  | fullyWired
  deriving DecidableEq, Repr

def derivedMain : String := "aot"

def derivedTest : String := "aotTest"

/-- How far processing has come, told by the tasks and source sets that are there. -/
def Project.processingState (p : Project) : ProcessingState :=
  if p.tasks.contains ProcessingKind.application.taskName
      && p.tasks.contains (ProcessingKind.tests main).taskName then .fullyWired
  else if p.sourceSets.contains derivedMain && p.sourceSets.contains derivedTest then .basePluginSeen
  else .unconfigured

end BuildGraph
