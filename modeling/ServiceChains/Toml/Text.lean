import ServiceChains.Text.Decimal

/-!
# TOML strings

A string is written in one of four forms. Between quotes backslashes start escapes, between
apostrophes every character stands for itself. With three quotes or apostrophes the text may have
several lines: a line break directly behind the opening is dropped, line breaks are read as line
feeds, and up to two quotes may stand directly before the closing ones. Control characters other
than the tab cannot stand in a string as they are.
-/
namespace ServiceChains.Toml

/-- Blanks inside a line. -/
def isTomlBlank (c : Char) : Bool :=
  c == ' ' || c == '\t'

/-- A character that may stand as it is in comments and strings. -/
def isPlain (c : Char) : Bool :=
  c == '\t' || (32 ≤ c.toNat && c.toNat != 127)

/-- What follows a line break, if there is one. -/
def afterBreak? : List Char → Option (List Char)
  | '\n' :: rest => some rest
  | '\r' :: '\n' :: rest => some rest
  | _ => none

/-- The character that a one-letter escape denotes. -/
def shortEscape? : Char → Option Char
  | 'b' => some '\x08'
  | 't' => some '\t'
  | 'n' => some '\n'
  | 'f' => some '\x0c'
  | 'r' => some '\r'
  | '"' => some '"'
  | '\\' => some '\\'
  | _ => none

/-- The value of a hexadecimal digit. -/
def hexValue? (c : Char) : Option Nat :=
  if c.isDigit then some (c.toNat - 48)
  else if 'a' ≤ c && c ≤ 'f' then some (c.toNat - 87)
  else if 'A' ≤ c && c ≤ 'F' then some (c.toNat - 55)
  else none

/-- The character whose code point is written in hexadecimal digits. -/
def charOfHex? (cs : List Char) : Option Char := do
  let n := (← cs.mapM hexValue?).foldl (fun n d => n * 16 + d) 0
  if n < 0xD800 || (0xE000 ≤ n && n < 0x110000) then some (Char.ofNat n) else none

/-- Reads a string behind its opening quote. `seen` holds the characters read before, last first. -/
def basicText (seen : List Char) : List Char → Option (String × List Char)
  | [] => none
  | '"' :: rest => some (String.ofList seen.reverse, rest)
  | '\\' :: 'u' :: a :: b :: c :: d :: rest =>
    match charOfHex? [a, b, c, d] with
    | some x => basicText (x :: seen) rest
    | none => none
  | '\\' :: 'U' :: a :: b :: c :: d :: e :: f :: g :: h :: rest =>
    match charOfHex? [a, b, c, d, e, f, g, h] with
    | some x => basicText (x :: seen) rest
    | none => none
  | '\\' :: c :: rest =>
    match shortEscape? c with
    | some x => basicText (x :: seen) rest
    | none => none
  | c :: rest => if isPlain c && c != '\\' then basicText (c :: seen) rest else none

/-- Reads a string behind its opening apostrophe. -/
def literalText (cs : List Char) : Option (String × List Char) :=
  match cs.dropWhile (fun c => isPlain c && c != '\'') with
  | '\'' :: rest => some (String.ofList (cs.takeWhile fun c => isPlain c && c != '\''), rest)
  | _ => none

/-- Does a line break follow, perhaps behind blanks? -/
def breakFollows (cs : List Char) : Bool :=
  (afterBreak? (cs.dropWhile isTomlBlank)).isSome

/-- Reads a string of several lines behind its opening quotes. While `folding`, blanks and line
breaks are skipped: that is what a backslash at the end of a line asks for. -/
def basicLines (folding : Bool) (seen : List Char) : List Char → Option (String × List Char)
  | [] => none
  | '"' :: '"' :: '"' :: '"' :: '"' :: rest =>
    some (String.ofList ('"' :: '"' :: seen).reverse, rest)
  | '"' :: '"' :: '"' :: '"' :: rest => some (String.ofList ('"' :: seen).reverse, rest)
  | '"' :: '"' :: '"' :: rest => some (String.ofList seen.reverse, rest)
  | '\\' :: 'u' :: a :: b :: c :: d :: rest =>
    match charOfHex? [a, b, c, d] with
    | some x => basicLines false (x :: seen) rest
    | none => none
  | '\\' :: 'U' :: a :: b :: c :: d :: e :: f :: g :: h :: rest =>
    match charOfHex? [a, b, c, d, e, f, g, h] with
    | some x => basicLines false (x :: seen) rest
    | none => none
  | '\\' :: c :: rest =>
    match shortEscape? c with
    | some x => basicLines false (x :: seen) rest
    | none => if breakFollows (c :: rest) then basicLines true seen (c :: rest) else none
  | '\r' :: '\n' :: rest =>
    if folding then basicLines true seen rest else basicLines false ('\n' :: seen) rest
  | c :: rest =>
    if folding && (isTomlBlank c || c == '\n') then basicLines true seen rest
    else if (isPlain c && c != '\\') || c == '\n' then basicLines false (c :: seen) rest
    else none

/-- Reads a string of several lines behind its opening apostrophes. -/
def literalLines (seen : List Char) : List Char → Option (String × List Char)
  | [] => none
  | '\'' :: '\'' :: '\'' :: '\'' :: '\'' :: rest =>
    some (String.ofList ('\'' :: '\'' :: seen).reverse, rest)
  | '\'' :: '\'' :: '\'' :: '\'' :: rest => some (String.ofList ('\'' :: seen).reverse, rest)
  | '\'' :: '\'' :: '\'' :: rest => some (String.ofList seen.reverse, rest)
  | '\r' :: '\n' :: rest => literalLines ('\n' :: seen) rest
  | c :: rest => if isPlain c || c == '\n' then literalLines (c :: seen) rest else none

/-- What follows the opening of a text of several lines: a line break there is dropped. -/
def dropFirstBreak (cs : List Char) : List Char :=
  (afterBreak? cs).getD cs

/-- Reads a string in any of its forms. -/
def readString : List Char → Option (String × List Char)
  | '"' :: '"' :: '"' :: rest => basicLines false [] (dropFirstBreak rest)
  | '"' :: rest => basicText [] rest
  | '\'' :: '\'' :: '\'' :: rest => literalLines [] (dropFirstBreak rest)
  | '\'' :: rest => literalText rest
  | _ => none

end ServiceChains.Toml
