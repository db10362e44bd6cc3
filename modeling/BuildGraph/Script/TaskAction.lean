/-
  BuildGraph.Script.TaskAction: actions on tasks.

  A script fills in a task's body field by field. What it asks for is done when the task is
  realized, in the order given; the names it uses are looked up at once.
-/

import BuildGraph.Script.Workspace

namespace BuildGraph

/-- A lazy value given by a script: a text, or a value by its name. -/
inductive LazyText where
  | of (value : String)
  | named (name : String)
  deriving DecidableEq, Repr

inductive CustomField where
  | log (text : String)
  | logProperty (name : String)
  | logProvider (name : String)
  | needs (property : Option String)

inductive JavaCompileField where
  | sourceSet (name : String)
  | classpath (files : FileCollection)
  | addClasspath (files : FileCollection)
  | destination (dirs : List Location)

inductive ProcessResourcesField where
  | sourceSet (name : String)
  | destination (dir : Option Location)

inductive MainClassField where
  | configuredMainClass (value : Option LazyText)
  | outputFile (file : Option Location)

inductive ProcessingField where
  | sourcesOutput (dir : Option Location)
  | resourcesOutput (dir : Option Location)
  | classesOutput (dir : Option Location)
  | groupId (value : Option LazyText)
  | artifactId (value : Option LazyText)
  | classpathRoots (files : FileCollection)
  | classpath (name : Option String)

inductive ProcessAotField where
  | spec (field : ProcessingField)
  | applicationClass (value : Option LazyText)

inductive ProcessTestAotField where
  | spec (field : ProcessingField)
  | testRuntimeClasspath (name : Option String)

/-- Fields to fill in, for one type of task. -/
inductive TaskSetup where
  | javaCompile (fields : List JavaCompileField)
  | processResources (fields : List ProcessResourcesField)
  | classes (sourceSets : List String)
  | resolveMainClassName (fields : List MainClassField)
  | processAot (fields : List ProcessAotField)
  | processTestAot (fields : List ProcessTestAotField)
  | custom (type : CustomType) (fields : List CustomField)

def TaskSetup.kind : TaskSetup → TaskKind
  | .javaCompile _ => .javaCompile
  | .processResources _ => .processResources
  | .classes _ => .classes
  | .resolveMainClassName _ => .resolveMainClassName
  | .processAot _ => .processAot
  | .processTestAot _ => .processTestAot
  | .custom type _ => .custom type

/-- A lazy value among the fields of a task. -/
inductive LazyField where
  | groupId
  | artifactId
  | applicationClass
  | configuredMainClass
  /-- The main class a task knows, empty if none is configured. -/
  | mainClass
  deriving DecidableEq, Repr

/-- The lazy value in a field, if the body has the field and it is filled in. -/
def TaskBody.lazyField? (f : LazyField) : TaskBody → Option Reading
  | .resolveMainClassName t =>
    match f with
    | .configuredMainClass => t.configuredMainClass.map .provider
    | .mainClass => some t.mainClass
    | _ => none
  | .processAot t =>
    match f with
    | .groupId => t.spec.groupId.map .provider
    | .artifactId => t.spec.artifactId.map .provider
    | .applicationClass => t.applicationClass.map .provider
    | _ => none
  | .processTestAot t =>
    match f with
    | .groupId => t.spec.groupId.map .provider
    | .artifactId => t.spec.artifactId.map .provider
    | _ => none
  | _ => none

/-- The numbers of all lazy values in a body. -/
def TaskBody.providers : TaskBody → List ProviderId
  | .resolveMainClassName t => t.configuredMainClass.toList
  | .processAot t => t.spec.groupId.toList ++ t.spec.artifactId.toList ++ t.applicationClass.toList
  | .processTestAot t => t.spec.groupId.toList ++ t.spec.artifactId.toList
  | _ => []

inductive TaskAction where
  | register (name : String) (setup : TaskSetup)
  | configure (name : String) (setup : TaskSetup)
  | realize (kind : TaskKind) (name : String)
  | missingInput (kind : TaskKind) (name : String)
  | evaluate (kind : TaskKind) (name : String) (field : LazyField)
  | handle (kind : TaskKind) (name : String)
  | has (name : String)
  | get (name : String)
  | names
  | isRealized (name : String)
  | dependsOn (dependent dependency : String)
  | dependenciesOf (name : String)
  | diagram
  | finalize
  | position (name : String)

namespace ScriptM

/-- The number of a lazy value given by a script. -/
def lazyId : Option LazyText → ScriptM (Option ProviderId)
  | none => return none
  | some (.of value) => return some (← addValue (.of value))
  | some (.named name) => return some (← valueId name)

/-- What filling in a field of a custom task does. -/
def customConfigurator (type : CustomType) : CustomField → ScriptM Configurator
  | .log text => return .change (.custom type fun t => { t with log := t.log ++ [text] })
  | .logProperty name => return .logFrom type (.property (← propertyId name))
  | .logProvider name => return .logFrom type (.provider (← valueId name))
  | .needs property => return .change (.custom type fun t => { t with needs := property })

def javaCompileChange : JavaCompileField → JavaCompile → JavaCompile
  | .sourceSet name, t => { t with sourceSet := name }
  | .classpath files, t => { t with classpath := files }
  | .addClasspath files, t => { t with classpath := t.classpath.plus files }
  | .destination dirs, t => { t with destination := dirs }

def processResourcesChange : ProcessResourcesField → ProcessResources → ProcessResources
  | .sourceSet name, t => { t with sourceSet := name }
  | .destination dir, t => { t with destination := dir }

def mainClassChange : MainClassField → ScriptM (ResolveMainClassName → ResolveMainClassName)
  | .configuredMainClass value => do
    let id ← lazyId value
    return fun t => { t with configuredMainClass := id }
  | .outputFile file => return fun t => { t with outputFile := file }

def specChange : ProcessingField → ScriptM (ProcessingSpec → ProcessingSpec)
  | .sourcesOutput dir => return fun s => { s with sourcesOutput := dir }
  | .resourcesOutput dir => return fun s => { s with resourcesOutput := dir }
  | .classesOutput dir => return fun s => { s with classesOutput := dir }
  | .groupId value => do
    let id ← lazyId value
    return fun s => { s with groupId := id }
  | .artifactId value => do
    let id ← lazyId value
    return fun s => { s with artifactId := id }
  | .classpathRoots files => return fun s => { s with classpathRoots := files }
  | .classpath name => return fun s => { s with classpath := name }

def processAotChange : ProcessAotField → ScriptM (ProcessAot → ProcessAot)
  | .spec field => do
    let f ← specChange field
    return fun t => { t with spec := f t.spec }
  | .applicationClass value => do
    let id ← lazyId value
    return fun t => { t with applicationClass := id }

def processTestAotChange : ProcessTestAotField → ScriptM (ProcessTestAot → ProcessTestAot)
  | .spec field => do
    let f ← specChange field
    return fun t => { t with spec := f t.spec }
  | .testRuntimeClasspath name => return fun t => { t with testRuntimeClasspath := name }

/-- What filling in the fields does when the task is realized. -/
def configurators : TaskSetup → ScriptM (List Configurator)
  | .javaCompile fields => return fields.map fun f => .change (.javaCompile (javaCompileChange f))
  | .processResources fields => return fields.map fun f => .change (.processResources (processResourcesChange f))
  | .classes sourceSets => return sourceSets.map fun name => .change (.classes fun _ => { sourceSet := name })
  | .resolveMainClassName fields => fields.mapM fun f => return .change (.resolveMainClassName (← mainClassChange f))
  | .processAot fields => fields.mapM fun f => return .change (.processAot (← processAotChange f))
  | .processTestAot fields => fields.mapM fun f => return .change (.processTestAot (← processTestAotChange f))
  | .custom type fields => fields.mapM (customConfigurator type)

/-- Evaluates what was read from a task. -/
def evaluateReading : Reading → ScriptM String
  | .text value => return value
  | .provider id => onProject (ConfigM.evaluate id)

/-- A body with the lazy values in it that are computed. -/
def answerBody (b : TaskBody) : ScriptM Answer := do
  let p ← ask id
  return .body b (b.providers.filter p.isResolved)

def runTask : TaskAction → ScriptM Answer
  | .register name setup => do
    if (← ask (·.tasks.contains name)) then throw (.duplicateTaskName name)
    let cs ← configurators setup
    onProject (ConfigM.registerTask name (.blank setup.kind) cs)
    return .registered name (← require (·.tasks.isRealized name))
  | .configure name setup => do
    let _ ← require (·.tasks.named setup.kind name)
    let cs ← configurators setup
    onProject (ConfigM.configure name cs)
    return .flag (← require (·.tasks.isRealized name))
  | .realize kind name => do
    let _ ← require (·.tasks.named kind name)
    answerBody (← onProject (ConfigM.realize name))
  | .missingInput kind name => do
    let _ ← require (·.tasks.named kind name)
    return .optionalText (← onProject (ConfigM.realize name)).missingInput
  | .evaluate kind name field => do
    let _ ← require (·.tasks.named kind name)
    match (← onProject (ConfigM.realize name)).lazyField? field with
    | none => return .optionalText none
    | some reading => return .optionalText (some (← evaluateReading reading))
  | .handle kind name => do
    let h ← require (·.tasks.named kind name)
    return .handle h ((← require (·.tasks.get name)).name = h.name)
  | .has name => return .flag (← ask (·.tasks.contains name))
  | .get name => return .text (← require (·.tasks.get name)).name
  | .names => return .texts (← ask (·.tasks.names))
  | .isRealized name => return .flag (← require (·.tasks.isRealized name))
  | .dependsOn dependent dependency => do
    let dependent ← require (·.tasks.get dependent)
    let dependency ← require (·.tasks.get dependency)
    onProject (ConfigM.dependsOn dependent.name dependency.name)
    return .ok
  | .dependenciesOf name => return .texts (← require (·.tasks.dependenciesOf name))
  | .diagram => return .text (← ask (·.tasks.diagram))
  | .finalize => return .texts (← onProject ConfigM.finalize)
  | .position name => do
    let order ← onProject ConfigM.finalize
    return .optionalCount (order.findIdx? (· == name))

end ScriptM

end BuildGraph
