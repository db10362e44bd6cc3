/-
  BuildGraph.Processing.Classpath: the classpath of a processing task.
-/

import BuildGraph.Project.Basic

namespace BuildGraph.ConfigM

open SourceSetName

/-- The set-up of a processing classpath: it extends `parents` and has the attributes of the classpath it stands
    in for. -/
def processingClasspathSetup (task : String) (parents : List String) (attributes : AttributeSet) :
    List Configurations.Setup :=
  [.canBeConsumed false, .canBeResolved true, .description ("Classpath of the " ++ task ++ " task.")]
    ++ parents.map .extendsFrom ++ [.copyAttributes attributes]

/-- Creates the classpath of `task`. It extends what the runtime classpath of the source set extends, and not
    that classpath itself; extensions and attributes are copied as they are now. -/
def createProcessingClasspath (task sourceSet : String) : ConfigM String := do
  let s ← ofExcept ((← get).sourceSets.get sourceSet)
  let base ← ofExcept ((← get).configurations.get (runtimeClasspath s.name))
  let parents ← ofExcept ((← get).configurations.extendsOf base.name)
  let name := task ++ "Classpath"
  createConfiguration name (processingClasspathSetup task parents base.attributes)
  return name

end BuildGraph.ConfigM
