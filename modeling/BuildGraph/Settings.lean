/-
  BuildGraph.Settings: the settings a project starts from.

  Settings are a JSON object with some of the fields `name`, `group`, `project-dir` and
  `build-dir`, or a list with the first few of them in this order. Fields that are not given have
  defaults. A field that is unknown or given twice, or that is no string, is an error.
-/

import BuildGraph.Json.Reader
import BuildGraph.Project.Basic

namespace BuildGraph

open Json

structure Settings where
  name : String := "project"
  group : String := ""
  projectDir : Path := ⟨"."⟩
  /-- Relative to the project directory unless absolute. -/
  buildDir : Path := ⟨"build"⟩
  deriving Repr, BEq, Inhabited

namespace Settings

/-- The fields of the settings, in the order of a list. -/
inductive Field where
  | name
  | group
  | projectDir
  | buildDir
  deriving DecidableEq, Repr

namespace Field

def all : List Field := [.name, .group, .projectDir, .buildDir]

def key : Field → String
  | .name => "name"
  | .group => "group"
  | .projectDir => "project-dir"
  | .buildDir => "build-dir"

/-- What a text should hold where the field is read. -/
def expected : Field → String
  | .name => "a string"
  | .group => "a string"
  | .projectDir => "a UTF-8 path string"
  | .buildDir => "a UTF-8 path string"

def ofKey? (key : String) : Option Field := all.find? (·.key == key)

/-- The settings with this field set to `value`. -/
def set (f : Field) (value : String) (s : Settings) : Settings :=
  match f with
  | .name => { s with name := value }
  | .group => { s with group := value }
  | .projectDir => { s with projectDir := ⟨value⟩ }
  | .buildDir => { s with buildDir := ⟨value⟩ }

def get (f : Field) (s : Settings) : String :=
  match f with
  | .name => s.name
  | .group => s.group
  | .projectDir => s.projectDir.text
  | .buildDir => s.buildDir.text

end Field

/-- Reads the member `key`; the fields read so far come with the settings. -/
def readMember (state : List Field × Settings) (key : String) : Reader (List Field × Settings) := fun cs =>
  match Field.ofKey? key with
  | none => .error (.unknownField key (Field.all.map (·.key)))
  | some f =>
    if f ∈ state.1 then .error (.duplicateField key)
    else do
      let (value, cs) ← readText f.expected (← readColon cs)
      return ((f :: state.1, f.set value state.2), cs)

/-- The settings with the first few fields given. -/
def ofValues (values : List String) : Settings := (Field.all.zip values).foldl (fun s e => e.1.set e.2 s) {}

def read : Reader Settings := fun cs =>
  match skipSpace cs with
  | [] => .error .endInValue
  | '[' :: cs => do
    let (values, cs) ← readItems (Field.all.map (·.expected)) true cs
    return (ofValues values, ← closeList cs)
  | '{' :: cs => do
    let (state, cs) ← readObject readMember ([], {}) cs
    return (state.2, cs)
  | cs => .error (mismatch "struct ProjectSettings" cs)

/-- The settings a JSON text holds. -/
def ofJson (text : String) : Except ConfigError Settings := (readAll read text).mapError .settings

/-- The JSON text of settings, with all fields. -/
def json (s : Settings) : String :=
  "\x7b" ++ ",".intercalate (Field.all.map fun f => quote f.key ++ ":" ++ quote (f.get s)) ++ "\x7d"

/-- Why settings could not be loaded from a file. -/
inductive LoadError where
  /-- There is no text at the path. -/
  | unreadable (path : String)
  /-- The text at the path is not accepted. -/
  | invalid (path : String) (cause : ConfigError)
  deriving DecidableEq, Repr

def LoadError.message : LoadError → String
  | .unreadable path => "Couldn't read project settings from " ++ path
  | .invalid path _ => "Invalid project settings in " ++ path

/-- The settings in the file at `path`, given its content if there is such a file. -/
def load (path : String) (content : Option ByteArray) : Except LoadError Settings :=
  match content.bind String.fromUTF8? with
  | none => .error (.unreadable path)
  | some text => (ofJson text).mapError (.invalid path)

end Settings

/-- A project with nothing in it. -/
def Project.ofSettings (s : Settings) : Project where
  name := s.name
  group := s.group
  layout := { projectDir := s.projectDir, buildDir := s.buildDir }

/-- A project called `name` in the current directory. -/
def Project.new (name : String) : Project := .ofSettings { name := name }

end BuildGraph
