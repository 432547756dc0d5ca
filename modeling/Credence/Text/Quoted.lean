import Credence.Text.Shown

/-! # Quoted text

A quoted text stands between double quotes on one line. Quotes, backslashes and the named controls
have a backslash before them, and any other character that is not shown as itself is written by
its code point. The single quote needs no mark.
-/

namespace Credence.Text

def hexadecimal (n : Nat) : String := String.ofList (Nat.toDigits 16 n)

def quotedChar (c : Char) : String :=
  if c = '"' then "\\\""
  else if c = '\\' then "\\\\"
  else if c = '\n' then "\\n"
  else if c = '\r' then "\\r"
  else if c = '\t' then "\\t"
  else if c.toNat = 0 then "\\0"
  else if isShown c then c.toString
  else "\\u\x7b" ++ hexadecimal c.toNat ++ "\x7d"

def quoted (s : String) : String := "\"" ++ String.join (s.toList.map quotedChar) ++ "\""

end Credence.Text
