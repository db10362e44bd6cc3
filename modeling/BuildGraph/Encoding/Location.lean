/-
  BuildGraph.Encoding.Location: locations as JSON.

  A location is written as an object with its base and its path. Read, the members may come in
  either order and others are passed over; a list of base and path is accepted as well. A path
  that comes before the base is put aside, and checked when the base is known. As a member, the
  base is its name or an object with its name as the only key; in a list it is its name.
-/

import BuildGraph.Files.Location
import BuildGraph.Json.Skim

namespace BuildGraph

open Json

/-- Which directory a location is relative to. -/
inductive LocationBase where
  | project
  | build
  deriving DecidableEq, Repr

namespace LocationBase

def name : LocationBase → String
  | .project => "project"
  | .build => "build"

def names : List String := [project.name, build.name]

/-- The location at `path` below this base. -/
def locate (b : LocationBase) (path : String) : Location :=
  match b with
  | .project => .project ⟨path⟩
  | .build => .build ⟨path⟩

def ofName (s : String) : Except Json.Error LocationBase :=
  if s = project.name then .ok .project
  else if s = build.name then .ok .build
  else .error (.unknownVariant s names)

/-- Reads the name of a base. -/
def readName : Reader LocationBase := fun cs => do
  let (s, cs) ← readText "variant identifier" cs
  return (← ofName s, cs)

/-- Takes the value that says there is none. -/
def readNull (cs : List Char) : Except Json.Error (List Char) :=
  match skipSpace cs with
  | [] => .error .endInValue
  | 'n' :: cs => readWord ['u', 'l', 'l'] cs
  | cs => .error (mismatch "unit" cs)

/-- Reads a base with its name as a key and no value, the brace taken. -/
def readKeyed : Reader LocationBase := fun cs => do
  match ← nextKey true cs with
  | none => .error .expectedValue
  | some cs =>
    let (s, cs) ← readBody cs
    let b ← ofName (String.ofList s)
    let cs ← readNull (← readColon cs)
    match skipSpace cs with
    | [] => .error .endInObject
    | '}' :: cs => return (b, cs)
    | _ => .error .expectedValue

/-- Reads the base of an object: its name, or an object with its name as the only key. -/
def read : Reader LocationBase := fun cs =>
  match skipSpace cs with
  | [] => .error .endInValue
  | '"' :: cs => readName ('"' :: cs)
  | '{' :: cs => readKeyed cs
  | _ => .error .expectedValue

end LocationBase

namespace Location

/-- What a text should hold where a path is read. -/
def pathText : String := "a UTF-8 path string"

/-- What a text should hold where a location is read. -/
def locationText : String := "adjacently tagged enum Location"

/-- How much of a location has been read. -/
inductive Partial where
  | nothing
  | base (b : LocationBase)
  | path (found : Found)
  | whole (l : Location)

/-- Reads the member `key` of a location. -/
def readMember (state : Partial) (key : String) : Reader Partial := fun cs =>
  if key = "base" then
    match state with
    | .nothing => do
      let (b, cs) ← LocationBase.read (← readColon cs)
      return (.base b, cs)
    | .path found => do
      let (b, cs) ← LocationBase.read (← readColon cs)
      match found with
      | .string s => return (.whole (b.locate s), cs)
      | found => .error (.invalidType found pathText)
    | _ => .error (.duplicateField "base")
  else if key = "path" then
    match state with
    | .nothing => do
      let (found, cs) ← putAside (← readColon cs)
      return (.path found, cs)
    | .base b => do
      let (s, cs) ← readText pathText (← readColon cs)
      return (.whole (b.locate s), cs)
    | _ => .error (.duplicateField "path")
  else do
    let cs ← skim .ignored (← readColon cs)
    return (state, cs)

/-- Reads a location from a list, its bracket taken. -/
def readPair : Reader Location := fun cs => do
  match ← nextItem true cs with
  | none => .error (.invalidLength 0 locationText)
  | some cs =>
    let (b, cs) ← LocationBase.readName cs
    match ← nextItem false cs with
    | none => .error (.invalidLength 1 locationText)
    | some cs =>
      let (s, cs) ← readText pathText cs
      return (b.locate s, ← closeList cs)

def read : Reader Location := fun cs =>
  match skipSpace cs with
  | [] => .error .endInValue
  | '[' :: cs => readPair cs
  | '{' :: cs => do
    match ← readObject readMember .nothing cs with
    | (.whole l, cs) => return (l, cs)
    | (.base _, _) => .error (.missingField "path")
    | _ => .error (.missingField "base")
  | cs => .error (mismatch locationText cs)

/-- The base of a location and its path as written. -/
def parts : Location → LocationBase × String
  | .project p => (.project, p.text)
  | .build p => (.build, p.text)

/-- The JSON text of a location. -/
def json (l : Location) : String :=
  "\x7b\"base\":" ++ quote l.parts.1.name ++ ",\"path\":" ++ quote l.parts.2 ++ "\x7d"

/-- The location a JSON text holds. -/
def ofJson (text : String) : Except Json.Error Location := readAll read text

end Location

end BuildGraph
