/-
  BuildGraph.Script.Step: steps of a script, and plugins as scripts.

  A step is an action, the application of a plugin, a request to do something once a plugin is
  applied, or an attempt at something that may fail. A plugin is an identity with a script, its
  body. The answers of the steps inside a plugin, a handler or an attempt may be reported or not.

  - `Plugin.java`: the Java conventions with the source sets `main` and `test`.
  - `Plugin.boot`: the task that knows the application's main class.
  - `Plugin.aot`: ahead-of-time processing. Once the conventions are in place it derives the
    source sets of generated code, and once the main class is known as well it wires the
    processing tasks.
-/

import BuildGraph.Script.ConfigurationAction
import BuildGraph.Script.ProjectAction
import BuildGraph.Script.TaskAction
import BuildGraph.Script.ValueAction

namespace BuildGraph

/-- The identity of a plugin. -/
abbrev PluginId := String

/-- A step that contains no other steps. -/
inductive Action where
  | project (a : ProjectAction)
  | sourceSet (a : SourceSetAction)
  | configuration (a : ConfigurationAction)
  | task (a : TaskAction)
  | value (a : ValueAction)
  | property (a : PropertyAction)
  | processing (a : ProcessingAction)
  /-- Asks whether a plugin is applied and how many handlers wait for it. -/
  | plugin (id : PluginId)

inductive Step where
  | act (a : Action)
  /-- Applies the plugin `id` with its body, unless it is applied. -/
  | apply (id : PluginId) (reported : Bool) (body : List Step)
  /-- Has `handler` done once the plugin `id` is applied, right away if it is. -/
  | withPlugin (id : PluginId) (reported : Bool) (handler : List Step)
  /-- Does the steps of `body` up to the first that fails, and goes on after that as well. -/
  | attempt (reported : Bool) (body : List Step)

/-- An identity and a script. -/
structure Plugin where
  id : PluginId
  /-- Whether the answers of the steps in the body are reported. -/
  reported : Bool := false
  body : List Step

/-- The step that applies a plugin. -/
def Plugin.step (p : Plugin) : Step := .apply p.id p.reported p.body

namespace Plugin

def javaId : PluginId := "java"

def aotId : PluginId := "aot"

def bootId : PluginId := "boot"

def java : Plugin where
  id := javaId
  body := [.act (.processing .javaConventions)]

def boot (mainClass : Option String) : Plugin where
  id := bootId
  body := [.act (.processing (.mainClassTask mainClass))]

/-- Creates the classpath of a processing task and wires the task. -/
def registerProcessing (kind : ProcessingKind) (derived input : String) : List Step :=
  [.act (.processing (.createClasspath kind.taskName input)),
    .act (.processing (.wire kind derived input (kind.taskName ++ "Classpath") none))]

/-- What ahead-of-time processing does once the Java conventions and the main class are there. -/
def wireProcessing : List Step :=
  registerProcessing .application derivedMain SourceSetName.main
    ++ registerProcessing (.tests SourceSetName.main) derivedTest SourceSetName.test

/-- What ahead-of-time processing does once the Java conventions are there. -/
def deriveSourceSets : List Step :=
  [.act (.sourceSet (.derive derivedMain SourceSetName.main)),
    .act (.sourceSet (.derive derivedTest SourceSetName.test)),
    .withPlugin bootId false wireProcessing]

def aot : Plugin where
  id := aotId
  body := [.withPlugin javaId false deriveSourceSets]

end Plugin

end BuildGraph
