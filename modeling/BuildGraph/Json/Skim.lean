/-
  BuildGraph.Json.Skim: passing over values of any kind.

  A value can be passed over because nobody asks for it, or be put aside because what it should
  be is not known yet. A value put aside is held to the full rules for strings, numbers and
  commas and may not be nested too deep; one that nobody asks for is only held to its brackets
  and its outer shape.
-/

import BuildGraph.Json.Reader

namespace BuildGraph.Json

/-- Why a value is passed over. -/
inductive Skimming where
  | ignored
  | putAside
  deriving DecidableEq, Repr

inductive Bracket where
  | list
  | object
  deriving DecidableEq, Repr

def Bracket.close : Bracket → Char
  | .list => ']'
  | .object => '}'

/-- The fault of a text that ends within brackets. -/
def Bracket.endFault : Bracket → Error
  | .list => .endInList
  | .object => .endInObject

/-- The fault of an item that is followed by neither comma nor closing bracket. -/
def Bracket.separatorFault : Bracket → Error
  | .list => .expectedCommaOrBracket
  | .object => .expectedCommaOrBrace

/-- What the text stands at. -/
inductive Stage where
  | value
  | afterValue
  | afterOpening
  deriving DecidableEq, Repr

/-- How many brackets may be open at once within a value put aside. -/
def nestingLimit : Nat := 126

/-- Passes over a value that is neither list nor object. -/
def skimScalar (how : Skimming) (cs : List Char) : Except Error (List Char) :=
  match how with
  | .putAside => (readScalar cs).map (·.2)
  | .ignored =>
    match cs with
    | '"' :: cs => skipBody cs
    | '-' :: cs => skipNumber cs
    | cs => if cs.head?.any isDigit then skipNumber cs else (readScalar cs).map (·.2)

/-- Passes over a key whose quote has been taken. -/
def skimKey (how : Skimming) (cs : List Char) : Except Error (List Char) :=
  match how with
  | .putAside => (readBody cs).map (·.2)
  | .ignored => skipBody cs

/-- Passes over what comes before the value of an item, `cs` being what follows the opening bracket or, if
    `comma`, the comma. -/
def skimLead (how : Skimming) (b : Bracket) (comma : Bool) (cs : List Char) : Except Error (List Char) :=
  match b, skipSpace cs with
  | .list, [] => .error .endInValue
  | .list, c :: cs => if how = .putAside ∧ comma ∧ c = ']' then .error .trailingComma else .ok (c :: cs)
  | .object, [] => .error (if how = .putAside ∧ comma then .endInValue else .endInObject)
  | .object, c :: cs =>
    if c = '"' then do readColon (← skimKey how cs)
    else .error (if how = .putAside ∧ comma ∧ c = '}' then .trailingComma else .keyMustBeString)

/-- Passes over a value and all it contains, the innermost open bracket first in the list. Two rounds at least
    one of which takes a character are enough for each. -/
def skimWith (how : Skimming) : Nat → Stage → List Bracket → List Char → Except Error (List Char)
  | 0, _, _, _ => .error .endInValue
  | n + 1, .value, open_, cs =>
    match skipSpace cs with
    | [] => .error .endInValue
    | '[' :: cs => opening n .list open_ cs
    | '{' :: cs => opening n .object open_ cs
    | cs => do skimWith how n .afterValue open_ (← skimScalar how cs)
  | _ + 1, _, [], cs => .ok cs
  | n + 1, stage, b :: open_, cs =>
    match skipSpace cs with
    | [] => .error b.endFault
    | c :: cs =>
      if c = b.close then skimWith how n .afterValue open_ cs
      else if stage = .afterOpening then do skimWith how n .value (b :: open_) (← skimLead how b false (c :: cs))
      else if c = ',' then do skimWith how n .value (b :: open_) (← skimLead how b true cs)
      else .error b.separatorFault
where
  /-- Goes on after an opening bracket. -/
  opening (n : Nat) (b : Bracket) (open_ : List Bracket) (cs : List Char) : Except Error (List Char) :=
    if how = .putAside ∧ nestingLimit ≤ open_.length then .error .nestedTooDeep
    else skimWith how n .afterOpening (b :: open_) cs

/-- Passes over a value. -/
def skim (how : Skimming) (cs : List Char) : Except Error (List Char) :=
  skimWith how (2 * cs.length + 2) .value [] cs

/-- Puts a value aside: what kind of value it is, and what follows it. -/
def putAside : Reader Found := fun cs =>
  match skipSpace cs with
  | [] => .error .endInValue
  | '[' :: rest => (skim .putAside ('[' :: rest)).map fun rest => (.sequence, rest)
  | '{' :: rest => (skim .putAside ('{' :: rest)).map fun rest => (.map, rest)
  | cs => readScalar cs

end BuildGraph.Json
