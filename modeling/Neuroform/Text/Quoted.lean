/-
  Neuroform — texts between double quotes.

  Quotes, backslashes and the common control characters are written with a
  backslash.  A character that would not be seen, or would be drawn on the one
  before it, is written as its code point.
-/
import Neuroform.Text.GraphemeExtend
import Neuroform.Text.Invisible

namespace Neuroform.Text

/-- A character as its code point. -/
def codePointEscape (c : Char) : List Char :=
  ['\\', 'u', '\x7b'] ++ Nat.toDigits 16 c.toNat ++ ['\x7d']

/-- One character inside double quotes. -/
def quotedChar (c : Char) : List Char :=
  if c = '"' then ['\\', '"']
  else if c = '\\' then ['\\', '\\']
  else if c = '\n' then ['\\', 'n']
  else if c = '\r' then ['\\', 'r']
  else if c = '\t' then ['\\', 't']
  else if c.toNat = 0 then ['\\', '0']
  else if extendsGrapheme c || isInvisible c then codePointEscape c
  else [c]

/-- A text between double quotes. -/
def quoted (text : String) : String :=
  "\"" ++ String.ofList (text.toList.flatMap quotedChar) ++ "\""

end Neuroform.Text
