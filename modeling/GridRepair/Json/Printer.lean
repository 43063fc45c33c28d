/-
# Writing JSON

The text of a value on one line, without blanks.  Quotes, backslashes and control characters
of strings are escaped.
-/
import GridRepair.Json.Basic

namespace GridRepair

namespace Json

/-- A hexadecimal digit. -/
def hexDigit (n : Nat) : Char := Char.ofNat (if n < 10 then 0x30 + n else 0x57 + n)

/-- A character inside a string. -/
def escape (out : String) (c : Char) : String :=
  if c = '"' then out ++ "\\\""
  else if c = '\\' then out ++ "\\\\"
  else if c.toNat < 0x20 then
    ((out ++ "\\u00").push (hexDigit (c.toNat / 16))).push (hexDigit (c.toNat % 16))
  else out.push c

/-- A string in quotes, after what is written already. -/
def quote (out s : String) : String := (s.toList.foldl escape (out.push '"')).push '"'

mutual

/-- A value after what is written already. -/
def write (out : String) : Json → String
  | .null => out ++ "null"
  | .bool b => out ++ (if b then "true" else "false")
  | .number n => out ++ n.render
  | .text s => quote out s
  | .array items => (writeItems true (out.push '[') items).push ']'
  | .object fields => (writeFields true (out.push '\x7b') fields).push '\x7d'
  | .broken => out ++ "null"

/-- Items after what is written already, with a comma before all but the first. -/
def writeItems (isFirst : Bool) (out : String) : List Json → String
  | [] => out
  | j :: js => writeItems false (write (if isFirst then out else out.push ',') j) js

/-- Fields after what is written already, with a comma before all but the first. -/
def writeFields (isFirst : Bool) (out : String) : List (String × Json) → String
  | [] => out
  | (name, j) :: fields =>
    writeFields false
      (write ((quote (if isFirst then out else out.push ',') name).push ':') j) fields

end

/-- The text of a value. -/
def render (j : Json) : String := write "" j

end Json

end GridRepair
