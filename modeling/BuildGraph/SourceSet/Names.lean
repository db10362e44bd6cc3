/-
  BuildGraph.SourceSet.Names: what a source set's configurations and tasks are called.

  The names of the source set `main` stand alone (`implementation`, `compileJava`); those of any
  other carry its name, each following word capitalised (`testImplementation`, `compileTestJava`).
-/

import BuildGraph.Text.Uppercase

namespace BuildGraph.SourceSetName

def main : String := "main"

def test : String := "test"

def isMain (name : String) : Bool := name == main

/-- The configuration of `name` that plays the part `base`. -/
def configuration (name base : String) : String :=
  if isMain name then base else name ++ Text.capitalize base

/-- The non-empty ones of `words` in one word, the first as it is and the others capitalised. -/
def camelCase (words : List String) : String :=
  match words.filter (· ≠ "") with
  | [] => ""
  | first :: rest => first ++ String.join (rest.map Text.capitalize)

/-- The task that does `verb` to the `target` of `name`. -/
def task (name verb target : String) : String := camelCase [verb, if isMain name then "" else name, target]

def implementation (name : String) : String := configuration name "implementation"

def compileOnly (name : String) : String := configuration name "compileOnly"

def runtimeOnly (name : String) : String := configuration name "runtimeOnly"

def compileClasspath (name : String) : String := configuration name "compileClasspath"

def runtimeClasspath (name : String) : String := configuration name "runtimeClasspath"

def compileJava (name : String) : String := task name "compile" "java"

def processResources (name : String) : String := task name "process" "resources"

def classes (name : String) : String := task name "" "classes"

end BuildGraph.SourceSetName
