/-
  BuildGraph.Json.Text: strings in a JSON text.

  A string is written between double quotes. Written by `encode`, it has an escape for the quote,
  the backslash and the characters below the blank, and nothing else; `readBody` reads any
  escape, a pair of surrogate escapes as one character.
-/

import BuildGraph.Json.Error

namespace BuildGraph.Json

/-- The digit with value `n` to base sixteen. -/
def hexDigit (n : Nat) : Char := if n < 10 then Char.ofNat ('0'.toNat + n) else Char.ofNat ('a'.toNat + (n - 10))

/-- A character inside a written string. -/
def encodeChar (c : Char) : List Char :=
  match c with
  | '"' => ['\\', '"']
  | '\\' => ['\\', '\\']
  | '\x08' => ['\\', 'b']
  | '\x09' => ['\\', 't']
  | '\x0a' => ['\\', 'n']
  | '\x0c' => ['\\', 'f']
  | '\x0d' => ['\\', 'r']
  | c => if c.toNat < 0x20 then ['\\', 'u', '0', '0', hexDigit (c.toNat / 16), hexDigit (c.toNat % 16)] else [c]

/-- The written form of a string, without its quotes. -/
def encode (cs : List Char) : List Char := cs.flatMap encodeChar

/-- The written form of a string. -/
def quote (s : String) : String := "\"" ++ String.ofList (encode s.toList) ++ "\""

/-- The value of a digit to base sixteen, in capital or small letters. -/
def hexValue (c : Char) : Option Nat :=
  if '0' ≤ c ∧ c ≤ '9' then some (c.toNat - '0'.toNat)
  else if 'a' ≤ c ∧ c ≤ 'f' then some (c.toNat - 'a'.toNat + 10)
  else if 'A' ≤ c ∧ c ≤ 'F' then some (c.toNat - 'A'.toNat + 10)
  else none

/-- The value of four digits to base sixteen. -/
def hexQuad (a b c d : Char) : Option Nat :=
  match hexValue a, hexValue b, hexValue c, hexValue d with
  | some a, some b, some c, some d => some (((a * 16 + b) * 16 + c) * 16 + d)
  | _, _, _, _ => none

/-- The fault of an escape with fewer than four characters after its `u`: it is the end of the text that is met,
    unless those characters take up four bytes. -/
def shortHexFault (cs : List Char) : Error :=
  if 4 ≤ (String.ofList cs).utf8ByteSize then .invalidEscape else .endInString

/-- The character a one-letter escape stands for. -/
def simpleEscape (c : Char) : Option Char :=
  match c with
  | '"' => some '"'
  | '\\' => some '\\'
  | '/' => some '/'
  | 'b' => some '\x08'
  | 'f' => some '\x0c'
  | 'n' => some '\x0a'
  | 'r' => some '\x0d'
  | 't' => some '\x09'
  | _ => none

def isHighSurrogate (n : Nat) : Bool := 0xD800 ≤ n && n ≤ 0xDBFF

def isLowSurrogate (n : Nat) : Bool := 0xDC00 ≤ n && n ≤ 0xDFFF

/-- The character beyond the basic plane that two surrogates stand for. -/
def surrogatePair (high low : Nat) : Char := Char.ofNat ((high - 0xD800) * 0x400 + (low - 0xDC00) + 0x10000)

/-- Puts a character before what was read after it. -/
def consRead (c : Char) (r : Except Error (List Char × List Char)) : Except Error (List Char × List Char) :=
  r.map fun p => (c :: p.1, p.2)

/-- Reads a string whose opening quote has been taken: its characters, and what follows its closing quote. -/
def readBody : List Char → Except Error (List Char × List Char)
  | [] => .error .endInString
  | c :: cs =>
    if c = '"' then .ok ([], cs)
    else if c = '\\' then
      match cs with
      | [] => .error .endInString
      | 'u' :: x₁ :: x₂ :: x₃ :: x₄ :: rest =>
        match hexQuad x₁ x₂ x₃ x₄ with
        | none => .error .invalidEscape
        | some n =>
          if isLowSurrogate n then .error .loneSurrogate
          else if isHighSurrogate n then
            match rest with
            | [] => .error .endInString
            | ['\\'] => .error .endInString
            | '\\' :: 'u' :: y₁ :: y₂ :: y₃ :: y₄ :: rest' =>
              match hexQuad y₁ y₂ y₃ y₄ with
              | none => .error .invalidEscape
              | some m => if isLowSurrogate m then consRead (surrogatePair n m) (readBody rest') else .error .loneSurrogate
            | '\\' :: 'u' :: short => .error (shortHexFault short)
            | _ => .error .unpairedHighSurrogate
          else consRead (Char.ofNat n) (readBody rest)
      | e :: rest =>
        match simpleEscape e with
        | some c => consRead c (readBody rest)
        | none => .error (if e = 'u' then shortHexFault rest else .invalidEscape)
    else if c.toNat < 0x20 then .error .controlCharacter
    else consRead c (readBody cs)

/-- Passes over a string whose opening quote has been taken. Surrogates need not be paired here. -/
def skipBody : List Char → Except Error (List Char)
  | [] => .error .endInString
  | c :: cs =>
    if c = '"' then .ok cs
    else if c = '\\' then
      match cs with
      | [] => .error .endInString
      | 'u' :: x₁ :: x₂ :: x₃ :: x₄ :: rest =>
        match hexQuad x₁ x₂ x₃ x₄ with
        | none => .error .invalidEscape
        | some _ => skipBody rest
      | e :: rest =>
        match simpleEscape e with
        | some _ => skipBody rest
        | none => .error (if e = 'u' then shortHexFault rest else .invalidEscape)
    else if c.toNat < 0x20 then .error .controlCharacter
    else skipBody cs

end BuildGraph.Json
