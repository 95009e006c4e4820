import OpLint.Text.Standalone

/-!
# Quoted text in messages

A message that cites a string puts it in double quotes, so that its reader sees
where it starts and ends. Quotes, backslashes and the common control characters
are escaped by a letter, and every other character that does not show on its own
by its code point in braces.
-/

namespace OpLint.Text

def hexDigits (n : Nat) : String :=
  .ofList (Nat.toDigits 16 n)

def quotedChar (c : Char) : String :=
  if c = '\x00' then "\\0"
  else if c = '\t' then "\\t"
  else if c = '\r' then "\\r"
  else if c = '\n' then "\\n"
  else if c = '"' then "\\\""
  else if c = '\\' then "\\\\"
  else if standsAlone c then c.toString
  else "\\u\x7b" ++ hexDigits c.toNat ++ "\x7d"

def quoted (s : String) : String :=
  "\"" ++ String.join (s.toList.map quotedChar) ++ "\""

end OpLint.Text
