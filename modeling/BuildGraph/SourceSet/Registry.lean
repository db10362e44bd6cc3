/-
  BuildGraph.SourceSet.Registry: source sets and the registry of a project.

  A source set is laid out by convention and may be changed afterwards. Tasks read it when they
  are realized, not when they are registered, so they refer to it by the place it was laid out
  at. A source set whose creation fails is never registered: no lookup finds it, but a task
  registered for it before the failure still reads what was laid out.

  - `names_layOut` / `names_register`: laying out leaves the registry as it is, registering puts
    one name at its end.
-/

import BuildGraph.Error
import BuildGraph.Files.Collection
import BuildGraph.SourceSet.Names

namespace BuildGraph

/-- Where a source set compiles to. -/
structure SourceSetOutput where
  classesDirs : List Location
  resourcesDir : Location
  deriving Repr

/-- A named unit of compilation. -/
structure SourceSet where
  name : String
  java : List Location
  resources : List Location
  output : SourceSetOutput
  /-- What code of this source set is compiled with. -/
  compileClasspath : FileCollection := .empty
  /-- What code of this source set runs with. -/
  runtimeClasspath : FileCollection := .empty
  deriving Repr

/-- The conventional layout: sources in `src/<name>/java`, resources in `src/<name>/resources`, compiled to
    `classes/java/<name>` and `resources/<name>` in the build directory. -/
def SourceSet.conventional (name : String) : SourceSet where
  name := name
  java := [.project ⟨"src/" ++ name ++ "/java"⟩]
  resources := [.project ⟨"src/" ++ name ++ "/resources"⟩]
  output :=
    { classesDirs := [.build ⟨"classes/java/" ++ name⟩]
      resourcesDir := .build ⟨"resources/" ++ name⟩ }

/-- One of the two classpaths of a source set. -/
inductive ClasspathKind where
  | compile
  | runtime
  deriving DecidableEq, Repr

def SourceSet.classpath (s : SourceSet) : ClasspathKind → FileCollection
  | .compile => s.compileClasspath
  | .runtime => s.runtimeClasspath

def SourceSet.updateClasspath (s : SourceSet) (f : FileCollection → FileCollection) : ClasspathKind → SourceSet
  | .compile => { s with compileClasspath := f s.compileClasspath }
  | .runtime => { s with runtimeClasspath := f s.runtimeClasspath }

/-- The place a source set was laid out at. -/
abbrev UnitId := Nat

/-- All source sets ever laid out, and the registered ones by name, in order of registration. -/
structure SourceSets where
  units : List SourceSet := []
  registered : List (String × UnitId) := []
  deriving Repr, Inhabited

namespace SourceSets

def names (r : SourceSets) : List String := r.registered.map (·.1)

def contains (r : SourceSets) (name : String) : Bool := (r.registered.lookup name).isSome

/-- Lays a source set out without registering it. -/
def layOut (r : SourceSets) (s : SourceSet) : SourceSets := { r with units := r.units ++ [s] }

/-- The place the next source set will be laid out at. -/
def nextUnit (r : SourceSets) : UnitId := r.units.length

/-- Registers what was laid out at `u` under `name`. -/
def register (r : SourceSets) (name : String) (u : UnitId) : SourceSets :=
  { r with registered := r.registered ++ [(name, u)] }

def unitOf? (r : SourceSets) (name : String) : Option UnitId := r.registered.lookup name

def find? (r : SourceSets) (name : String) : Option SourceSet := (r.unitOf? name).bind (r.units[·]?)

def get (r : SourceSets) (name : String) : Except ConfigError SourceSet :=
  match r.find? name with
  | some s => .ok s
  | none => .error (.sourceSetNotFound name)

/-- Changes what was laid out at `u`. -/
def updateUnit (r : SourceSets) (u : UnitId) (f : SourceSet → SourceSet) : SourceSets :=
  { r with units := r.units.modify u f }

def update (r : SourceSets) (name : String) (f : SourceSet → SourceSet) : Except ConfigError SourceSets :=
  match r.unitOf? name with
  | some u => .ok (r.updateUnit u f)
  | none => .error (.sourceSetNotFound name)

/-- Adds a source set as it is, unless its name is taken. -/
def insert (r : SourceSets) (s : SourceSet) : Except ConfigError SourceSets :=
  if r.contains s.name then .error (.duplicateSourceSetName s.name)
  else .ok ((r.layOut s).register s.name r.nextUnit)

/-- The registered source sets in order. -/
def toList (r : SourceSets) : List SourceSet := r.registered.filterMap fun e => r.units[e.2]?

@[simp] theorem names_layOut (r : SourceSets) (s : SourceSet) : (r.layOut s).names = r.names := rfl

@[simp] theorem names_register (r : SourceSets) (name : String) (u : UnitId) :
    (r.register name u).names = r.names ++ [name] := by simp [names, register]

end SourceSets

end BuildGraph
