import DoubleRatchet.Text.Json

/-!
# Writing JSON

Values are written without blanks, as texts that the caller puts together.
-/
namespace DoubleRatchet.Json

/-- A character within quotes; control characters are escaped. -/
def writeChar (c : Char) : List Char :=
  if c = '"' then ['\\', '"']
  else if c = '\\' then ['\\', '\\']
  else if c = '\n' then ['\\', 'n']
  else if c = '\r' then ['\\', 'r']
  else if c = '\t' then ['\\', 't']
  else if c = '\x08' then ['\\', 'b']
  else if c = '\x0c' then ['\\', 'f']
  else if c.toNat < 0x20 then
    ['\\', 'u', '0', '0', hexDigit (c.toNat / 16), hexDigit (c.toNat % 16)]
  else [c]

def writeText (s : String) : String := "\"" ++ String.ofList (s.toList.flatMap writeChar) ++ "\""

/-- Items between brackets, with commas. -/
def writeList {α : Type} (item : α → String) (items : List α) : String :=
  "[" ++ String.intercalate "," (items.map item) ++ "]"

/-- Named values between braces. -/
def writeFields (members : List (String × String)) : String :=
  "\x7b" ++ String.intercalate ","
    (members.map fun (name, v) => writeText name ++ ":" ++ v) ++ "\x7d"

def writeBytes (bs : Bytes) : String := writeList (fun b => toString b.toNat) bs

end DoubleRatchet.Json
