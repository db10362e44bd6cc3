/-
  BuildGraph.Json.Number: numbers in a JSON text.

  No type read here holds a number, so a number only matters for the message that refuses it. A
  number without fraction and exponent is exact while it fits 64 bits; any other is the
  floating-point product or quotient of its leading digits and a power of ten.
-/

import BuildGraph.Decimal.Shortest
import BuildGraph.Json.Error

namespace BuildGraph.Json

def isDigit (c : Char) : Bool := '0' ≤ c && c ≤ '9'

def digitValue (c : Char) : Nat := c.toNat - '0'.toNat

/-- The digits that start `cs`, and the rest. -/
def takeDigits (cs : List Char) : List Char × List Char := (cs.takeWhile isDigit, cs.dropWhile isDigit)

/-- Appends `digits` to the number `acc` as long as it fits 64 bits: the number, and how many digits were used. -/
def accumulate (acc used : Nat) : List Char → Nat × Nat
  | [] => (acc, used)
  | c :: cs =>
    if acc * 10 + digitValue c < UInt64.size then accumulate (acc * 10 + digitValue c) (used + 1) cs else (acc, used)

/-- `x * 10 ^ exponent` in floating-point arithmetic, in at most `n` divisions. -/
def scaleFloat : Nat → Float → Int → Except Error Float
  | 0, x, _ => .ok x
  | n + 1, x, exponent =>
    if exponent.natAbs ≤ 308 then
      if exponent ≥ 0 then
        let y := x * Float.ofScientific 1 false exponent.natAbs
        if y.isInf then .error .numberOutOfRange else .ok y
      else .ok (x / Float.ofScientific 1 false exponent.natAbs)
    else if x == 0.0 then .ok x
    else if exponent ≥ 0 then .error .numberOutOfRange
    else scaleFloat n (x / Float.ofScientific 1 false 308) (exponent + 308)

/-- A number of the sign given with the digits `significand` and a power of ten. -/
def floating (negative : Bool) (significand : Nat) (exponent : Int) : Except Error Found := do
  let x ← scaleFloat 5 significand.toUInt64.toFloat exponent
  return .floating (Decimal.floatText (if negative then -x else x))

/-- The sign of an exponent, if it has one, and the rest. -/
def exponentSign : List Char → Bool × List Char
  | '+' :: cs => (false, cs)
  | '-' :: cs => (true, cs)
  | cs => (false, cs)

/-- The greatest exponent there is. -/
def maxExponent : Nat := 0x7fffffff

/-- `exponent`, or the greatest or least exponent there is. -/
def clampExponent (exponent : Int) : Int := max (-maxExponent - 1) (min maxExponent exponent)

/-- What follows the letter of an exponent. -/
def readExponent (negative : Bool) (significand : Nat) (before : Int) (cs : List Char) :
    Except Error (Found × List Char) :=
  let (down, cs) := exponentSign cs
  match cs, takeDigits cs with
  | [], _ => .error .endInValue
  | _, ([], _) => .error .invalidNumber
  | _, (digits, rest) => do
    let size := digits.foldl (fun n c => n * 10 + digitValue c) 0
    if maxExponent < size then
      if significand ≠ 0 ∧ ¬ down then .error .numberOutOfRange
      else .ok (.floating (if negative then "-0.0" else "0.0"), rest)
    else
      let exponent := if down then before - size else before + size
      return (← floating negative significand (clampExponent exponent), rest)

/-- The end of a number: an exponent or nothing. -/
def readTail (negative : Bool) (significand : Nat) (exponent : Int) : List Char → Except Error (Found × List Char)
  | 'e' :: cs => readExponent negative significand exponent cs
  | 'E' :: cs => readExponent negative significand exponent cs
  | cs => do return (← floating negative significand exponent, cs)

/-- What follows the point of a number. Digits beyond 64 bits are passed over. -/
def readFraction (negative : Bool) (significand : Nat) (before : Int) (cs : List Char) :
    Except Error (Found × List Char) :=
  match takeDigits cs with
  | ([], []) => .error .endInValue
  | ([], _) => .error .invalidNumber
  | (digits, rest) =>
    let (significand, used) := accumulate significand 0 digits
    readTail negative significand (before - used) rest

/-- A whole number that fits 64 bits, by its sign. -/
def wholeNumber (negative : Bool) (n : Nat) : Except Error Found :=
  if !negative then .ok (.integer n)
  else if n ≠ 0 ∧ n ≤ UInt64.size / 2 then .ok (.integer (-n))
  else floating true n 0

/-- A number after its sign. -/
def readNumber (negative : Bool) (cs : List Char) : Except Error (Found × List Char) :=
  match cs, takeDigits cs with
  | [], _ => .error .endInValue
  | _, ([], _) => .error .invalidNumber
  | _, ('0' :: _ :: _, _) => .error .invalidNumber
  | _, (digits, rest) => do
    let (n, used) := accumulate 0 0 digits
    let dropped := digits.length - used
    match rest with
    | '.' :: cs => readFraction negative n dropped cs
    | 'e' :: cs => readExponent negative n dropped cs
    | 'E' :: cs => readExponent negative n dropped cs
    | _ =>
      if dropped = 0 then return (← wholeNumber negative n, rest)
      else return (← floating negative n dropped, rest)

/-- Passes over the exponent of a number, its letter taken. -/
def skipExponent (cs : List Char) : Except Error (List Char) :=
  match takeDigits (exponentSign cs).2 with
  | ([], _) => .error .invalidNumber
  | (_, rest) => .ok rest

/-- Passes over a number after its sign, however large. -/
def skipNumber (cs : List Char) : Except Error (List Char) :=
  match takeDigits cs with
  | ([], _) => .error .invalidNumber
  | ('0' :: _ :: _, _) => .error .invalidNumber
  | (_, '.' :: cs) =>
    match takeDigits cs with
    | ([], _) => .error .invalidNumber
    | (_, 'e' :: cs) => skipExponent cs
    | (_, 'E' :: cs) => skipExponent cs
    | (_, rest) => .ok rest
  | (_, 'e' :: cs) => skipExponent cs
  | (_, 'E' :: cs) => skipExponent cs
  | (_, rest) => .ok rest

end BuildGraph.Json
