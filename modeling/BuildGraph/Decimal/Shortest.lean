/-
  BuildGraph.Decimal.Shortest: the shortest decimal that reads back as a binary number.

  A finite positive binary number stands for all reals that round to it. On the decimal grids
  with one digit, two digits and so on its two neighbours are tried; the first grid that has one
  among those reals gives the digits, the nearer neighbour if both are.
-/

namespace BuildGraph.Decimal

/-- The positive number `mantissa * 2 ^ exponent`; a number next to a smaller power of two has a nearer neighbour
    below than above. -/
structure Binary where
  mantissa : Nat
  exponent : Int
  nearBelow : Bool
  deriving Repr

/-- The number with the given bits, sign aside. -/
def Binary.ofBits (bits : UInt64) : Binary :=
  let fraction : Nat := bits.toNat % (1 <<< 52)
  let biased : Nat := (bits.toNat >>> 52) % (1 <<< 11)
  if biased = 0 then ⟨fraction, -1074, false⟩
  else ⟨(1 <<< 52) + fraction, (biased : Int) - 1075, fraction = 0 && biased ≠ 1⟩

/-- The number `coefficient * 10 ^ exponent`. -/
structure Digits where
  coefficient : Nat
  exponent : Int
  deriving Repr, DecidableEq

/-- Numbers on a common scale: `a * 2 ^ (q - 2)` and `k * 10 ^ e` compare as `a * binary` and `k * decimal`. -/
structure Scale where
  binary : Nat
  decimal : Nat

def Scale.of (q e : Int) : Scale :=
  ⟨(1 <<< (q - 2).toNat) * Nat.pow 10 (-e).toNat, (1 <<< (2 - q).toNat) * Nat.pow 10 e.toNat⟩

/-- The neighbour of `b` on the grid `10 ^ e` that rounds to it, if there is one. -/
def Binary.neighbour? (b : Binary) (e : Int) : Option Nat :=
  let s := Scale.of b.exponent e
  let value := 4 * b.mantissa * s.binary
  let low := (4 * b.mantissa - if b.nearBelow then 1 else 2) * s.binary
  let high := (4 * b.mantissa + 2) * s.binary
  let inside (k : Nat) : Bool :=
    if b.mantissa % 2 = 0 then low ≤ k * s.decimal && k * s.decimal ≤ high
    else low < k * s.decimal && k * s.decimal < high
  let k := value / s.decimal
  let upper := 2 * value > (2 * k + 1) * s.decimal || (2 * value == (2 * k + 1) * s.decimal && k % 2 == 1)
  match inside k && k ≠ 0, inside (k + 1) with
  | true, true => some (if upper then k + 1 else k)
  | true, false => some k
  | false, true => some (k + 1)
  | false, false => none

/-- Tries the grids `10 ^ e`, `10 ^ (e - 1)` and so on. -/
def Binary.search (b : Binary) : Nat → Int → Digits
  | 0, e => ⟨0, e⟩
  | n + 1, e =>
    match b.neighbour? e with
    | some k => ⟨k, e⟩
    | none => b.search n (e - 1)

/-- The shortest digits of `b`. No double exceeds `10 ^ 309`, and none needs a grid finer than `10 ^ -324`. -/
def Binary.shortest (b : Binary) : Digits := b.search 634 309

/-- An exponent with its sign, as it follows the digits. -/
def exponentText (e : Int) : String := if e < 0 then "e" ++ toString e else "e+" ++ toString e

/-- Digits as text: a plain decimal with a point from `0.00001` up to sixteen digits, an exponent beyond. -/
def Digits.text (d : Digits) : String :=
  let digits := (toString d.coefficient).toList
  let point : Int := digits.length + d.exponent
  if 0 ≤ d.exponent ∧ point ≤ 16 then String.ofList (digits ++ List.replicate d.exponent.toNat '0') ++ ".0"
  else if 0 < point ∧ point ≤ 16 then
    String.ofList (digits.take point.toNat) ++ "." ++ String.ofList (digits.drop point.toNat)
  else if -5 < point ∧ point ≤ 0 then "0." ++ String.ofList (List.replicate (-point).toNat '0' ++ digits)
  else match digits with
    | [c] => c.toString ++ exponentText (point - 1)
    | cs => String.ofList (cs.take 1) ++ "." ++ String.ofList (cs.drop 1) ++ exponentText (point - 1)

/-- A finite floating-point number as text, with the fewest digits that read back. -/
def floatText (x : Float) : String :=
  let bits := x.toBits
  let negative := bits.toNat ≥ 1 <<< 63
  let magnitude := if bits.toNat % (1 <<< 63) = 0 then "0.0" else (Binary.ofBits bits).shortest.text
  if negative then "-" ++ magnitude else magnitude

end BuildGraph.Decimal
