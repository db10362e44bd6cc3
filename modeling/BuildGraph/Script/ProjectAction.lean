/-
  BuildGraph.Script.ProjectAction: actions on the project as a whole, on paths, and on source
  sets.
-/

import BuildGraph.Processing.DerivedSourceSet
import BuildGraph.Script.Workspace

namespace BuildGraph

/-- A step in the life of a file collection. -/
inductive CollectionStep where
  | add (e : FileElement)
  | plus (c : FileCollection)
  /-- Starts over with one element. -/
  | of (e : FileElement)
  | contains (e : FileElement)
  | isEmpty
  | equals (c : FileCollection)

/-- The collection after a step, and the answer: the new size, or what was asked. -/
def CollectionStep.run (c : FileCollection) : CollectionStep → CollectionAnswer × FileCollection
  | .add e => (.size (c.add e).elements.length, c.add e)
  | .plus d => (.size (c.plus d).elements.length, c.plus d)
  | .of e => (.size 1, .of e)
  | .contains e => (.holds (c.contains e), c)
  | .isEmpty => (.holds c.isEmpty, c)
  | .equals d => (.holds (c == d), c)

/-- The answers to steps on one collection, and what it ends as. -/
def CollectionStep.runAll : List CollectionStep → FileCollection → List CollectionAnswer × FileCollection
  | [], c => ([], c)
  | s :: steps, c =>
    let (answer, c) := s.run c
    let (answers, c) := runAll steps c
    (answer :: answers, c)

inductive ProjectAction where
  | dump
  | state
  | setGroup (value : String)
  | setBuildDir (value : String)
  | resolveFiles (files : FileCollection)
  | resolve (location : Location)
  | buildDirLocation (path : String)
  | files (steps : List CollectionStep)

/-- Which directories of a source set. -/
inductive SourceKind where
  | java
  | resources
  deriving DecidableEq, Repr

inductive SourceSetAction where
  | create (name : String)
  /-- Puts a source set into the registry as it is laid out by convention, without configurations and tasks. -/
  | insert (name : String)
  | derive (name existing : String)
  | get (name : String)
  | names
  | has (name : String)
  | setDirs (sourceSet : String) (which : SourceKind) (dirs : List Location)
  | setOutput (sourceSet : String) (output : SourceSetOutput)
  | setClasspath (sourceSet : String) (which : ClasspathKind) (files : FileCollection)
  | addClasspath (sourceSet : String) (which : ClasspathKind) (files : FileCollection)
  | resolveClasspath (sourceSet : String) (which : ClasspathKind)

namespace ScriptM

def runProject : ProjectAction → ScriptM Answer
  | .dump => return .project (← ask (·.report))
  | .state => return .state (← ask (·.processingState))
  | .setGroup value => do
    onProject (modify fun p => { p with group := value })
    return .ok
  | .setBuildDir value => do
    onProject (modify fun p => { p with layout := { p.layout with buildDir := ⟨value⟩ } })
    return .ok
  | .resolveFiles files => return .paths (← require (·.resolveFiles files))
  | .resolve location => return .text (← ask (·.layout.resolve location)).text
  | .buildDirLocation path => return .text (Location.build ⟨path⟩).text
  | .files steps =>
    let (answers, c) := CollectionStep.runAll steps .empty
    return .collection answers c

/-- Changes a classpath of a source set and answers with what it is then. -/
def changeClasspath (sourceSet : String) (which : ClasspathKind) (f : FileCollection → FileCollection) :
    ScriptM Answer := do
  onProject (ConfigM.onSourceSets (·.update sourceSet (·.updateClasspath f which)))
  return .elements ((← require (·.sourceSets.get sourceSet)).classpath which)

def setSourceDirs (dirs : List Location) (s : SourceSet) : SourceKind → SourceSet
  | .java => { s with java := dirs }
  | .resources => { s with resources := dirs }

def runSourceSet : SourceSetAction → ScriptM Answer
  | .create name => do
    onProject (ConfigM.createSourceSet name)
    return .ok
  | .insert name => do
    onProject (ConfigM.onSourceSets (·.insert (.conventional name)))
    return .ok
  | .derive name existing => do
    onProject (ConfigM.deriveSourceSet name existing)
    return .ok
  | .get name => return .sourceSet (← require (·.sourceSets.get name))
  | .names => return .texts (← ask (·.sourceSets.names))
  | .has name => return .flag (← ask (·.sourceSets.contains name))
  | .setDirs sourceSet which dirs => do
    onProject (ConfigM.onSourceSets (·.update sourceSet (setSourceDirs dirs · which)))
    return .ok
  | .setOutput sourceSet output => do
    onProject (ConfigM.onSourceSets (·.update sourceSet ({ · with output := output })))
    return .ok
  | .setClasspath sourceSet which files => changeClasspath sourceSet which fun _ => files
  | .addClasspath sourceSet which files => changeClasspath sourceSet which (·.plus files)
  | .resolveClasspath sourceSet which => do
    let s ← require (·.sourceSets.get sourceSet)
    return .paths (← require (·.resolveFiles (s.classpath which)))

end ScriptM

end BuildGraph
