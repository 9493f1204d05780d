import ServiceChains.Text.Decimal

/-!
# Quoted text

A JSON string: quotes, backslashes and control characters below the space are escaped, with a short
form where there is one; every other character stands for itself.
-/
namespace ServiceChains.Json

/-- The character of a hexadecimal digit, letters in lower case. -/
def hexChar (d : Nat) : Char :=
  if d < 10 then Text.digitChar d else Char.ofNat (87 + d)

/-- A character as it stands between quotes. -/
def escape (c : Char) : List Char :=
  if c = '"' then ['\\', '"']
  else if c = '\\' then ['\\', '\\']
  else if c = '\x08' then ['\\', 'b']
  else if c = '\x0c' then ['\\', 'f']
  else if c = '\n' then ['\\', 'n']
  else if c = '\r' then ['\\', 'r']
  else if c = '\t' then ['\\', 't']
  else if c.toNat < 32 then ['\\', 'u', '0', '0', hexChar (c.toNat / 16), hexChar (c.toNat % 16)]
  else [c]

/-- A text between quotes. -/
def quote (cs : List Char) : List Char :=
  '"' :: cs.flatMap escape ++ ['"']

/-- A string between quotes. -/
def quoted (s : String) : String :=
  String.ofList (quote s.toList)

end ServiceChains.Json
