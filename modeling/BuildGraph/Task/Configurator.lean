/-
  BuildGraph.Task.Configurator: changes to a task's body, kept until the task is realized.

  A configurator is made for one type of body and leaves a body of any other type as it is. A
  plain change is a function of the body. The others first read something that may still
  change: a source set, a property, or a lazy value.

  - `Change.kind_apply`: a change keeps the type of the body.
-/

import BuildGraph.SourceSet.Registry
import BuildGraph.Task.Body

namespace BuildGraph

/-- The number of a property of a project. -/
abbrev PropertyId := Nat

/-- A change that depends on the body alone, for one type of body. -/
inductive Change where
  | javaCompile (f : JavaCompile → JavaCompile)
  | processResources (f : ProcessResources → ProcessResources)
  | classes (f : Classes → Classes)
  | resolveMainClassName (f : ResolveMainClassName → ResolveMainClassName)
  | processAot (f : ProcessAot → ProcessAot)
  | processTestAot (f : ProcessTestAot → ProcessTestAot)
  | custom (type : CustomType) (f : CustomTask → CustomTask)

namespace Change

/-- The type of body the change is for. -/
def kind : Change → TaskKind
  | .javaCompile _ => .javaCompile
  | .processResources _ => .processResources
  | .classes _ => .classes
  | .resolveMainClassName _ => .resolveMainClassName
  | .processAot _ => .processAot
  | .processTestAot _ => .processTestAot
  | .custom type _ => .custom type

def apply : Change → TaskBody → TaskBody
  | .javaCompile f, .javaCompile t => .javaCompile (f t)
  | .processResources f, .processResources t => .processResources (f t)
  | .classes f, .classes t => .classes (f t)
  | .resolveMainClassName f, .resolveMainClassName t => .resolveMainClassName (f t)
  | .processAot f, .processAot t => .processAot (f t)
  | .processTestAot f, .processTestAot t => .processTestAot (f t)
  | .custom type f, .custom other t => .custom other (if type = other then f t else t)
  | _, body => body

@[simp] theorem kind_apply (c : Change) (b : TaskBody) : (c.apply b).kind = b.kind := by
  cases c <;> cases b <;> rfl

end Change

/-- Where a configurator finds the text it logs. -/
inductive TextSource where
  | property (id : PropertyId)
  | provider (id : ProviderId)
  deriving DecidableEq, Repr

/-- What a configurator does when its task is realized. -/
inductive Configurator where
  /-- Changes the body. -/
  | change (c : Change)
  /-- Takes classpath and destination of a compile task from what was laid out at `unit`. -/
  | compileFrom (unit : UnitId)
  /-- Takes the destination of a resources task from what was laid out at `unit`. -/
  | resourcesFrom (unit : UnitId)
  /-- Appends the text found at `source` to the log of a custom task. -/
  | logFrom (type : CustomType) (source : TextSource)

/-- The type of body the configurator is for. -/
def Configurator.kind : Configurator → TaskKind
  | .change c => c.kind
  | .compileFrom _ => .javaCompile
  | .resourcesFrom _ => .processResources
  | .logFrom type _ => .custom type

end BuildGraph
