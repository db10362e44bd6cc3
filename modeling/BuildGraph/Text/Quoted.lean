/-
  BuildGraph.Text.Quoted: text in double quotes, for messages and diagnostics.

  Quotes, backslashes and the usual control characters get a backslash escape; any other
  character without a picture of its own is written as its scalar value.
-/

import BuildGraph.Text.Unprintable

namespace BuildGraph.Text

/-- The digits of `n` to base sixteen, in small letters and without leading zeros. -/
def hex (n : Nat) : String := String.ofList (Nat.toDigits 16 n)

/-- A character inside quotes. -/
def quotedChar (c : Char) : String :=
  match c with
  | '\x00' => "\\0"
  | '\t' => "\\t"
  | '\r' => "\\r"
  | '\n' => "\\n"
  | '"' => "\\\""
  | '\\' => "\\\\"
  | c => if isUnprintable c then "\\u\x7b" ++ hex c.toNat ++ "\x7d" else c.toString

def quoted (s : String) : String := "\"" ++ String.join (s.toList.map quotedChar) ++ "\""

end BuildGraph.Text
