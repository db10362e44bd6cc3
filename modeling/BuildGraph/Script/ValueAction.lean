/-
  BuildGraph.Script.ValueAction: actions on lazy values and properties, and on ahead-of-time
  processing.
-/

import BuildGraph.Processing.DerivedSourceSet
import BuildGraph.Script.Workspace
import BuildGraph.Text.Quoted

namespace BuildGraph

/-- What a lazy value takes from a task. -/
inductive TaskReading where
  | mainClass
  | log (type : CustomType)
  deriving DecidableEq, Repr

/-- The type of task it is taken from. -/
def TaskReading.kind : TaskReading → TaskKind
  | .mainClass => .resolveMainClassName
  | .log type => .custom type

/-- The log of a custom task, its entries joined by commas. -/
def TaskBody.joinedLog : TaskBody → Reading
  | .custom _ t => .text (",".intercalate t.log)
  | _ => .text ""

def TaskReading.read : TaskReading → TaskBody → Reading
  | .mainClass => TaskBody.mainClass
  | .log _ => TaskBody.joinedLog

inductive ValueAction where
  /-- A value that is there from the start. -/
  | of (name value : String)
  /-- A value computed as `value#n`, where `n` counts the computations. They are counted under its name. -/
  | counting (name value : String)
  /-- How often the value counted under a name was computed. -/
  | runs (name : String)
  | map (name source append : String)
  /-- A second name for a value. -/
  | «alias» (name source : String)
  | ofProperty (name property : String)
  | group (name : String)
  | location (name : String) (location : Location)
  | fromTask (name : String) (reading : TaskReading) (task : String)
  | get (name : String)
  | isResolved (name : String)
  | inspect (name : String)

inductive PropertyAction where
  | new (name value : String)
  /-- A second name for a property. -/
  | «alias» (name source : String)
  | set (name value : String)
  | append (name text : String)
  | get (name : String)
  | inspect (name : String)

inductive ProcessingAction where
  | javaConventions
  | mainClassTask (mainClass : Option String)
  | createClasspath (task sourceSet : String)
  | outputsFor (task derived : String)
  /-- Wires a processing task; outputs that are not given are those for the derived source set. -/
  | wire (kind : ProcessingKind) (derived input classpath : String) (outputs : Option ProcessingOutputs)

/-- A property of a project, changed by `f`. -/
def Project.updateProperty (p : Project) (id : PropertyId) (f : String → String) : Project :=
  { p with properties := p.properties.modify id f }

/-- A lazy value in words, which do not compute it. -/
def Provider.inspect (cell : Provider) : String :=
  match cell.value with
  | some value => "Provider(" ++ Text.quoted value ++ ")"
  | none => "Provider(<unresolved>)"

namespace ScriptM

/-- Adds a lazy value to the project under `name`. -/
def newValue (name : String) (thunk : Thunk) : ScriptM Answer := do
  nameValue name (← addValue { thunk := thunk })
  return .ok

def runValue : ValueAction → ScriptM Answer
  | .of name value => do
    nameValue name (← addValue (.of value))
    return .ok
  | .counting name value => do
    let id ← addValue { thunk := .compute fun n => value ++ "#" ++ toString n }
    nameValue name id
    countRuns name id
    return .ok
  | .runs name => return .count (← runsOf name)
  | .map name source append => do
    let id ← valueId source
    newValue name (.map id (· ++ append))
  | .«alias» name source => do
    nameValue name (← valueId source)
    return .ok
  | .ofProperty name property => do
    let id ← propertyId property
    newValue name (.property id)
  | .group name => newValue name .group
  | .location name location => newValue name (.location location)
  | .fromTask name reading task => do
    let h ← require (·.tasks.named reading.kind task)
    newValue name (.fromTask h.name reading.read)
  | .get name => do
    let id ← valueId name
    return .text (← onProject (ConfigM.evaluate id))
  | .isResolved name => do
    let id ← valueId name
    return .flag (← ask (·.isResolved id))
  | .inspect name => do
    let id ← valueId name
    return .text ((← ask (·.providers[id]?)).map (·.inspect) |>.getD "")

def runProperty : PropertyAction → ScriptM Answer
  | .new name value => do
    let id ← ask (·.properties.length)
    onProject (modify fun p => { p with properties := p.properties ++ [value] })
    nameProperty name id
    return .ok
  | .«alias» name source => do
    nameProperty name (← propertyId source)
    return .ok
  | .set name value => do
    let id ← propertyId name
    onProject (modify (·.updateProperty id fun _ => value))
    return .ok
  | .append name text => do
    let id ← propertyId name
    onProject (modify (·.updateProperty id (· ++ text)))
    return .ok
  | .get name => do
    let id ← propertyId name
    return .text (← ask (·.property id))
  | .inspect name => do
    let id ← propertyId name
    return .text ("Property(" ++ Text.quoted (← ask (·.property id)) ++ ")")

def runProcessing : ProcessingAction → ScriptM Answer
  | .javaConventions => do
    onProject ConfigM.applyJavaConventions
    return .ok
  | .mainClassTask mainClass => do
    onProject (ConfigM.registerMainClassTask mainClass)
    return .ok
  | .createClasspath task sourceSet => return .text (← onProject (ConfigM.createProcessingClasspath task sourceSet))
  | .outputsFor task derived => do
    let o ← require (·.outputsFor task derived)
    return .texts [o.sourcesDir.text, o.resourcesDir.text, o.classesDir.text]
  | .wire kind derived input classpath outputs => do
    let o ← match outputs with
      | some o => pure o
      | none => require (·.outputsFor kind.taskName derived)
    return .text (← onProject (ConfigM.wireProcessingTask kind derived input classpath o))

end ScriptM

end BuildGraph
