import LiveBindings.Text.Extender
import LiveBindings.Text.Unprintable

namespace LiveBindings

def hexDigits (n : Nat) : String := String.ofList (Nat.toDigits 16 n)

/-- Whether a character stands for itself inside a quoted text. -/
def standsAlone (c : Char) : Bool := !isExtender c && !isUnprintable c

def quotedChar (c : Char) : String :=
  if c = '"' then "\\\""
  else if c = '\\' then "\\\\"
  else if c = '\n' then "\\n"
  else if c = '\r' then "\\r"
  else if c = '\t' then "\\t"
  else if c = '\x00' then "\\0"
  else if standsAlone c then c.toString
  else "\\u\x7b" ++ hexDigits c.toNat ++ "\x7d"

def quoted (text : String) : String :=
  "\"" ++ String.join (text.toList.map quotedChar) ++ "\""

end LiveBindings
