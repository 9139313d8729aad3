import Frontend.Text.Unprintable

/-!
# Quoted text

A text between double quotes. A quote and a backslash are escaped, the usual controls have short
escapes, and any other character without a shape of its own is written as its code point.
-/

namespace Frontend

def escapeChar (c : Char) : String :=
  if c = '\x00' then "\\0"
  else if c = '\t' then "\\t"
  else if c = '\r' then "\\r"
  else if c = '\n' then "\\n"
  else if c = '"' then "\\\""
  else if c = '\\' then "\\\\"
  else if isShapeless c then
    "\\u\x7b" ++ String.ofList (Nat.toDigits 16 c.toNat) ++ "\x7d"
  else c.toString

def quoted (s : String) : String :=
  "\"" ++ String.join (s.toList.map escapeChar) ++ "\""

end Frontend
