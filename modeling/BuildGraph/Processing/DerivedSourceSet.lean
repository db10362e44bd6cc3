/-
  BuildGraph.Processing.DerivedSourceSet: source sets of generated code.
-/

import BuildGraph.Project.Conventions

namespace BuildGraph.ConfigM

open SourceSetName

/-- Asks for classes and resources of the Java runtime. -/
def requestClassesAndResources (a : AttributeSet) : AttributeSet :=
  (a.set AttributeSet.libraryElementsKey "classes+resources").set AttributeSet.usageKey "java-runtime"

/-- Creates the source set `name` for code generated from `existing`. Its sources and resources lie in
    `build/generated`, its output is put on the runtime classpath of `existing`, and its compile classpath
    asks for classes and resources. -/
def deriveSourceSet (name existing : String) : ConfigM Unit := do
  let _ ← ofExcept ((← get).sourceSets.get existing)
  createSourceSet name
  onSourceSets (·.update name fun s =>
    { s with
      java := [.project ⟨"build/generated/" ++ name ++ "Sources"⟩]
      resources := [.project ⟨"build/generated/" ++ name ++ "Resources"⟩] })
  onSourceSets (·.update existing fun s => { s with runtimeClasspath := s.runtimeClasspath.add (.output name) })
  onConfigurations (·.update (compileClasspath name) fun c =>
    { c with attributes := requestClassesAndResources c.attributes })

end BuildGraph.ConfigM
