/-
  BuildGraph.Json.Reader: reading typed values from a JSON text in a single pass.

  A reader takes a value from the front of the text and gives the rest. Lists and objects are
  read item by item, so that the first fault of the text is the one reported.
-/

import BuildGraph.Json.Number
import BuildGraph.Json.Text

namespace BuildGraph.Json

/-- Takes a value from the front of a text. -/
abbrev Reader (α : Type) := List Char → Except Error (α × List Char)

def isSpace (c : Char) : Bool := c = ' ' || c = '\t' || c = '\n' || c = '\r'

def skipSpace (cs : List Char) : List Char := cs.dropWhile isSpace

/-- Takes the letters of a word that has begun. -/
def readWord : List Char → List Char → Except Error (List Char)
  | [], cs => .ok cs
  | _ :: _, [] => .error .endInValue
  | e :: es, c :: cs => if c = e then readWord es cs else .error .expectedIdent

/-- Reads a value that is neither list nor object, its first character in front. -/
def readScalar : Reader Found
  | 'n' :: cs => (readWord ['u', 'l', 'l'] cs).map fun rest => (.null, rest)
  | 't' :: cs => (readWord ['r', 'u', 'e'] cs).map fun rest => (.boolean true, rest)
  | 'f' :: cs => (readWord ['a', 'l', 's', 'e'] cs).map fun rest => (.boolean false, rest)
  | '"' :: cs => (readBody cs).map fun r => (.string (String.ofList r.1), r.2)
  | '-' :: cs => readNumber true cs
  | cs => if cs.head?.any isDigit then readNumber false cs else .error .expectedValue

/-- The fault of a text that goes on with `cs` where `expected` should stand. A list or object is refused at its
    bracket, anything else once it is read. -/
def mismatch (expected : String) (cs : List Char) : Error :=
  match cs with
  | '[' :: _ => .invalidType .sequence expected
  | '{' :: _ => .invalidType .map expected
  | cs =>
    match readScalar cs with
    | .ok (found, _) => .invalidType found expected
    | .error e => e

/-- Reads a string where `expected` should stand. -/
def readText (expected : String) : Reader String := fun cs =>
  match skipSpace cs with
  | [] => .error .endInValue
  | '"' :: cs => (readBody cs).map fun r => (String.ofList r.1, r.2)
  | cs => .error (mismatch expected cs)

/-- Takes what comes before an item of a list; nothing is left to read at the closing bracket. -/
def nextItem (first : Bool) (cs : List Char) : Except Error (Option (List Char)) :=
  match skipSpace cs with
  | [] => .error .endInList
  | ']' :: _ => .ok none
  | cs =>
    if first then .ok (some cs)
    else match cs with
      | ',' :: cs =>
        match skipSpace cs with
        | [] => .error .endInValue
        | ']' :: _ => .error .trailingComma
        | cs => .ok (some cs)
      | _ => .error .expectedCommaOrBracket

/-- Closes a list from which nothing more is wanted. -/
def closeList (cs : List Char) : Except Error (List Char) :=
  match skipSpace cs with
  | [] => .error .endInList
  | ']' :: cs => .ok cs
  | ',' :: cs =>
    match skipSpace cs with
    | ']' :: _ => .error .trailingComma
    | _ => .error .trailingCharacters
  | _ => .error .trailingCharacters

/-- Takes what comes before a key of an object, its quote included; nothing is left to read at the closing brace. -/
def nextKey (first : Bool) (cs : List Char) : Except Error (Option (List Char)) :=
  match skipSpace cs with
  | [] => .error .endInObject
  | '}' :: _ => .ok none
  | cs =>
    if first then
      match cs with
      | '"' :: cs => .ok (some cs)
      | _ => .error .keyMustBeString
    else match cs with
      | ',' :: cs =>
        match skipSpace cs with
        | [] => .error .endInValue
        | '"' :: cs => .ok (some cs)
        | '}' :: _ => .error .trailingComma
        | _ => .error .keyMustBeString
      | _ => .error .expectedCommaOrBrace

/-- Takes the colon after a key. -/
def readColon (cs : List Char) : Except Error (List Char) :=
  match skipSpace cs with
  | [] => .error .endInObject
  | ':' :: cs => .ok cs
  | _ => .error .expectedColon

/-- Reads the members of an object, its brace taken. `member` gets the state so far, the key just read and the
    text from before the colon. A member takes at least one character, which bounds their number. -/
def readMembers {σ : Type} (member : σ → String → Reader σ) : Nat → Bool → σ → Reader σ
  | 0, _, _, _ => .error .endInObject
  | n + 1, first, state, cs => do
    match ← nextKey first cs with
    | none => return (state, (skipSpace cs).drop 1)
    | some cs =>
      let (key, cs) ← readBody cs
      let (state, cs) ← member state (String.ofList key) cs
      readMembers member n false state cs

/-- Reads the members of an object, its brace taken. -/
def readObject {σ : Type} (member : σ → String → Reader σ) (state : σ) : Reader σ := fun cs =>
  readMembers member (cs.length + 1) true state cs

/-- Reads strings from a list, its bracket taken, one for each of `expected` until the list ends. -/
def readItems : List String → Bool → Reader (List String)
  | [], _, cs => .ok ([], cs)
  | expected :: more, first, cs => do
    match ← nextItem first cs with
    | none => return ([], cs)
    | some cs =>
      let (s, cs) ← readText expected cs
      let (ss, cs) ← readItems more false cs
      return (s :: ss, cs)

/-- Reads a whole text: one value, and blanks around it. -/
def readAll {α : Type} (read : Reader α) (text : String) : Except Error α := do
  let (a, rest) ← read text.toList
  match skipSpace rest with
  | [] => return a
  | _ => .error .trailingCharacters

end BuildGraph.Json
