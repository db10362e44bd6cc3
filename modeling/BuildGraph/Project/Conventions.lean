/-
  BuildGraph.Project.Conventions: what a Java project consists of.

  A source set comes with five configurations, two of them resolvable classpaths, and three
  tasks. The tasks read the source set when they are realized.
-/

import BuildGraph.Project.Basic

namespace BuildGraph

open Configurations (Setup)
open SourceSetName

namespace ConfigM

/-- The set-up of a configuration that only holds dependencies of a source set. -/
def bucketSetup (purpose sourceSet : String) : List Setup :=
  [.canBeConsumed false, .canBeResolved false,
    .description (purpose ++ " for source set '" ++ sourceSet ++ "'.")]

/-- The set-up of the compile classpath of a source set. -/
def compileClasspathSetup (sourceSet : String) : List Setup :=
  [.canBeConsumed false, .description ("Compile classpath for source set '" ++ sourceSet ++ "'."),
    .attribute AttributeSet.usageKey "java-api", .attribute AttributeSet.libraryElementsKey "classes",
    .extendsFrom (compileOnly sourceSet), .extendsFrom (implementation sourceSet)]

/-- The set-up of the runtime classpath of a source set. -/
def runtimeClasspathSetup (sourceSet : String) : List Setup :=
  [.canBeConsumed false, .description ("Runtime classpath of source set '" ++ sourceSet ++ "'."),
    .attribute AttributeSet.usageKey "java-runtime", .attribute AttributeSet.libraryElementsKey "jar",
    .extendsFrom (runtimeOnly sourceSet), .extendsFrom (implementation sourceSet)]

/-- The source set `name` by convention, its classpaths pointing to its configurations. -/
def conventionalSourceSet (name : String) : SourceSet :=
  { SourceSet.conventional name with
    compileClasspath := .configuration (compileClasspath name)
    runtimeClasspath := (FileCollection.output name).plus (.configuration (runtimeClasspath name)) }

/-- Creates the five configurations of a source set. -/
def createSourceSetConfigurations (name : String) : ConfigM Unit := do
  createConfiguration (implementation name) (bucketSetup "Implementation only dependencies" name)
  createConfiguration (compileOnly name) (bucketSetup "Compile only dependencies" name)
  createConfiguration (runtimeOnly name) (bucketSetup "Runtime only dependencies" name)
  createConfiguration (compileClasspath name) (compileClasspathSetup name)
  createConfiguration (runtimeClasspath name) (runtimeClasspathSetup name)

/-- Registers the three tasks of the source set laid out at `unit`. -/
def registerSourceSetTasks (name : String) (unit : UnitId) : ConfigM Unit := do
  registerTask (compileJava name) (.javaCompile { sourceSet := name }) [.compileFrom unit]
  registerTask (processResources name) (.processResources { sourceSet := name }) [.resourcesFrom unit]
  registerTask (classes name) (.classes { sourceSet := name }) []
  dependsOn (classes name) (compileJava name)
  dependsOn (classes name) (processResources name)

/-- Creates a source set with its configurations and tasks. It is registered when all of them are there. -/
def buildSourceSet (name : String) : ConfigM Unit := do
  createSourceSetConfigurations name
  let unit := (← get).sourceSets.nextUnit
  onSourceSets fun r => .ok (r.layOut (conventionalSourceSet name))
  registerSourceSetTasks name unit
  onSourceSets fun r => .ok (r.register name unit)

/-- Creates a source set. A taken name is refused before anything is created. -/
def createSourceSet (name : String) : ConfigM Unit := do
  if (← get).sourceSets.contains name then throw (.duplicateSourceSetName name) else buildSourceSet name

/-- Creates the source sets `main` and `test`. The tests are compiled and run with the output of `main`, and
    depend on what `main` depends on. -/
def applyJavaConventions : ConfigM Unit := do
  createSourceSet main
  createSourceSet test
  onSourceSets (·.update test fun s =>
    { s with
      compileClasspath := (FileCollection.output main).plus s.compileClasspath
      runtimeClasspath := s.runtimeClasspath.add (.output main) })
  extendConfiguration (implementation test) (implementation main)
  extendConfiguration (runtimeOnly test) (runtimeOnly main)

/-- The task that knows the application's main class. -/
def mainClassTask : String := "resolveMainClassName"

/-- Registers the task that knows the main class, which may not be configured. -/
def registerMainClassTask (mainClass : Option String) : ConfigM Unit := do
  let next := (← get).nextProvider
  let configured := mainClass.map fun _ => next
  registerTask mainClassTask (.blank .resolveMainClassName)
    [.change (.resolveMainClassName fun t =>
      { t with configuredMainClass := configured, outputFile := some (.build ⟨"resolvedMainClassName"⟩) })]
  addProviders (mainClass.toList.map Provider.of)

end ConfigM

/-- The main class a task knows; the empty text if none is configured. -/
def ResolveMainClassName.mainClass (t : ResolveMainClassName) : Reading :=
  match t.configuredMainClass with
  | some id => .provider id
  | none => .text ""

/-- The main class as read from a task's body. -/
def TaskBody.mainClass : TaskBody → Reading
  | .resolveMainClassName t => t.mainClass
  | _ => .text ""

end BuildGraph
