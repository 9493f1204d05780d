import ServiceChains.Text.Decimal

/-!
# Writing TOML strings

A string is written between quotes if nothing in it has to be escaped, else between apostrophes if
that is possible, else in a form for several lines, and only then with escapes.
-/
namespace ServiceChains.Toml

/-- Can the character not stand for itself in any form? -/
def isControl (c : Char) : Bool :=
  c.toNat == 127 || (c.toNat < 32 && c != '\t' && c != '\n')

/-- The length of the longest run of a character, where `run` of them have just been seen. -/
def longestRun (x : Char) (run : Nat) : List Char → Nat
  | [] => run
  | c :: cs => if c = x then longestRun x (run + 1) cs else max run (longestRun x 0 cs)

/-- The character of a hexadecimal digit, letters in upper case. -/
def hexChar (d : Nat) : Char :=
  if d < 10 then Text.digitChar d else Char.ofNat (55 + d)

/-- A character as it stands between quotes. -/
def escape (c : Char) : List Char :=
  if c = '\x08' then ['\\', 'b']
  else if c = '\t' then ['\\', 't']
  else if c = '\n' then ['\\', 'n']
  else if c = '\x0c' then ['\\', 'f']
  else if c = '\r' then ['\\', 'r']
  else if c = '"' then ['\\', '"']
  else if c = '\\' then ['\\', '\\']
  else if isControl c then ['\\', 'u', '0', '0', hexChar (c.toNat / 16), hexChar (c.toNat % 16)]
  else [c]

/-- A text as it stands between triple quotes. Of consecutive quotes every third is escaped; `run`
quotes have just been written as they are. -/
def escapeLines (run : Nat) : List Char → List Char
  | [] => []
  | c :: cs =>
    if c = '\n' then '\n' :: escapeLines 0 cs
    else if c = '"' && run < 2 then '"' :: escapeLines (run + 1) cs
    else escape c ++ escapeLines 0 cs

/-- The four ways to write a string. -/
inductive Form where
  | quotes
  | apostrophes
  | tripleQuotes
  | tripleApostrophes
  deriving DecidableEq, Repr

namespace Form

/-- Can the text stand in this form without escapes? Tabs do not count. -/
def isVerbatim (f : Form) (cs : List Char) : Bool :=
  !cs.any isControl &&
    match f with
    | quotes => !cs.contains '\\' && !cs.contains '"' && !cs.contains '\n'
    | apostrophes => !cs.contains '\'' && !cs.contains '\n'
    | tripleQuotes => !cs.contains '\\' && longestRun '"' 0 cs ≤ 2
    | tripleApostrophes => longestRun '\'' 0 cs ≤ 2

/-- The form in which a text is written: the first that needs no escapes, or one between quotes. -/
def choose (cs : List Char) : Form :=
  match [quotes, apostrophes, tripleQuotes, tripleApostrophes].find? (·.isVerbatim cs) with
  | some f => f
  | none => if cs.contains '\n' then tripleQuotes else quotes

/-- The line break behind the opening of a text that has several lines. -/
def openingBreak (cs : List Char) : List Char :=
  if cs.contains '\n' then ['\n'] else []

/-- A text written in a form. -/
def write (f : Form) (cs : List Char) : List Char :=
  match f with
  | quotes => '"' :: cs.flatMap escape ++ ['"']
  | apostrophes => '\'' :: cs ++ ['\'']
  | tripleQuotes => ['"', '"', '"'] ++ openingBreak cs ++ escapeLines 0 cs ++ ['"', '"', '"']
  | tripleApostrophes => ['\'', '\'', '\''] ++ openingBreak cs ++ cs ++ ['\'', '\'', '\'']

end Form

/-- A string as it is written. -/
def quoted (s : String) : String :=
  String.ofList ((Form.choose s.toList).write s.toList)

end ServiceChains.Toml
