/-
  BuildGraph.Error: what can go wrong while a build is being configured.

  Each error is a cause; `ConfigError.message` words it. An error ends the operation that met
  it, and what the operation did before stays done.
-/

import BuildGraph.Json.Error
import BuildGraph.Task.Kind

namespace BuildGraph

/-- Why a step of the configuration failed. -/
inductive ConfigError where
  | configurationNotFound (name : String)
  | duplicateConfigurationName (name : String)
  | sourceSetNotFound (name : String)
  | duplicateSourceSetName (name : String)
  | taskNotFound (name : String)
  | duplicateTaskName (name : String)
  | taskTypeMismatch (name : String) (expected found : TaskKind)
  | cyclicExtension (configuration parent : String)
  | taskCycle (name : String)
  | missingTaskInput (task property : String)
  | attributeConflict (configuration key requested provided : String)
  | settings (cause : Json.Error)
  /-- A lazy value was asked for in the course of computing it. -/
  | selfDependentValue
  deriving DecidableEq, Repr

/-- The wording of an error. -/
def ConfigError.message : ConfigError → String
  | .configurationNotFound name => "Configuration with name '" ++ name ++ "' not found."
  | .duplicateConfigurationName name =>
    "Cannot add a configuration with name '" ++ name ++ "' as a configuration with that name already exists."
  | .sourceSetNotFound name => "Source set with name '" ++ name ++ "' not found."
  | .duplicateSourceSetName name =>
    "Cannot add a source set with name '" ++ name ++ "' as a source set with that name already exists."
  | .taskNotFound name => "Task with name '" ++ name ++ "' not found."
  | .duplicateTaskName name => "Cannot add task '" ++ name ++ "' as a task with that name already exists."
  | .taskTypeMismatch name expected found =>
    "Task '" ++ name ++ "' has type " ++ found.typeName ++ ", expected " ++ expected.typeName ++ "."
  | .cyclicExtension configuration parent =>
    "Cyclic extendsFrom from '" ++ configuration ++ "' to '" ++ parent ++ "'."
  | .taskCycle name => "Circular dependency between tasks involving '" ++ name ++ "'."
  | .missingTaskInput task property =>
    "Task '" ++ task ++ "': no value has been specified for property '" ++ property ++ "'."
  | .attributeConflict configuration key requested provided =>
    "Configuration '" ++ configuration ++ "' requests " ++ key ++ "='" ++ requested ++
      "' but the candidate provides '" ++ provided ++ "'."
  | .settings cause => "Couldn't read project settings.\n" ++ cause.message
  | .selfDependentValue => "A lazy value depends on itself."

end BuildGraph
