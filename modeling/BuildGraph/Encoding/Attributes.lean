/-
  BuildGraph.Encoding.Attributes: attribute sets, and the names of attributes and plugins, as
  JSON.

  An attribute set is an object of strings, written in the order of its keys; read, the last
  value of a repeated key stands. A name is a string.
-/

import BuildGraph.Attributes
import BuildGraph.Json.Reader

namespace BuildGraph

open Json

/-- What a text should hold where a name is read. -/
def nameText : String := "a string"

/-- The name a JSON text holds. -/
def nameOfJson (text : String) : Except Json.Error String := readAll (readText nameText) text

namespace AttributeSet

/-- Reads the value of the key just read. -/
def readEntry (s : AttributeSet) (key : String) : Reader AttributeSet := fun cs => do
  let (value, cs) ← readText nameText (← readColon cs)
  return (s.set key value, cs)

def read : Reader AttributeSet := fun cs =>
  match skipSpace cs with
  | [] => .error .endInValue
  | '{' :: cs => readObject readEntry empty cs
  | cs => .error (mismatch "a map" cs)

/-- The attribute set a JSON text holds. -/
def ofJson (text : String) : Except Json.Error AttributeSet := readAll read text

/-- The JSON text of an attribute set. -/
def json (s : AttributeSet) : String :=
  "\x7b" ++ ",".intercalate (s.entries.map fun e => quote e.1 ++ ":" ++ quote e.2) ++ "\x7d"

end AttributeSet

end BuildGraph
