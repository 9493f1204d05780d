import ServiceChains.Toml.Text
import ServiceChains.Toml.Value

/-!
# TOML numbers and points in time

Single underscores may stand between digits. Whole numbers have no leading zeros, or a mark for
their base and then no sign, and fit into 64 bits with a sign. A number with a point or an exponent
must not be too large to be represented, unless it is negative. Points in time are a date, a time of
day, or both, perhaps with an offset.
-/
namespace ServiceChains.Toml

/-- Reads the further digits of a number. -/
def moreDigits (isDigit : Char → Bool) : List Char → List Char × List Char
  | [] => ([], [])
  | '_' :: d :: rest =>
    if isDigit d then
      let (ds, rest) := moreDigits isDigit rest
      (d :: ds, rest)
    else ([], '_' :: d :: rest)
  | d :: rest =>
    if isDigit d then
      let (ds, rest) := moreDigits isDigit rest
      (d :: ds, rest)
    else ([], d :: rest)

/-- Reads at least one digit. -/
def digitRun (isDigit : Char → Bool) : List Char → Option (List Char × List Char)
  | [] => none
  | d :: rest =>
    if isDigit d then
      let (ds, rest) := moreDigits isDigit rest
      some (d :: ds, rest)
    else none

/-- Reads a sign, if there is one: is the number negative? -/
def readSign : List Char → Bool × List Char
  | '+' :: rest => (false, rest)
  | '-' :: rest => (true, rest)
  | cs => (false, cs)

/-- Reads the digits of a whole number: a zero, or digits that do not begin with one. -/
def wholeRun : List Char → Option (List Char × List Char)
  | '0' :: rest => some (['0'], rest)
  | cs => digitRun Char.isDigit cs

/-- A number that fits into 64 bits with a sign. -/
def word? (value : Int) : Option Int :=
  let size := match value with
    | .ofNat n => n
    | .negSucc n => n
  if size < integerBound then some value else none

/-- The number that hexadecimal, octal or binary digits denote. -/
def ofBase (base : Nat) (ds : List Char) : Int :=
  Text.ofDigits base (fun c => (hexValue? c).getD 0) ds

/-- Reads the digits of a number in a base other than ten. -/
def baseInteger (base : Nat) (isDigit : Char → Bool) (cs : List Char) :
    Option (Toml × List Char) := do
  let (ds, rest) ← digitRun isDigit cs
  let value ← word? (ofBase base ds)
  return (.integer value, rest)

/-- Reads a whole number. -/
def readInteger (cs : List Char) : Option (Toml × List Char) :=
  match cs with
  | '0' :: 'x' :: rest => baseInteger 16 (fun c => (hexValue? c).isSome) rest
  | '0' :: 'o' :: rest => baseInteger 8 (fun c => '0' ≤ c && c ≤ '7') rest
  | '0' :: 'b' :: rest => baseInteger 2 (fun c => c == '0' || c == '1') rest
  | _ => do
    let (negative, rest) := readSign cs
    let (ds, rest) ← wholeRun rest
    let size : Int := Text.ofDigits 10 Text.digitValue ds
    let value ← word? (if negative then -size else size)
    return (.integer value, rest)

/-- Reads a point and the digits behind it, if there is a point. -/
def readFraction : List Char → Option (List Char × List Char)
  | '.' :: rest => digitRun Char.isDigit rest
  | cs => some ([], cs)

/-- Reads an exponent, if there is one. -/
def readExponent : List Char → Option (Int × List Char)
  | [] => some (0, [])
  | c :: rest =>
    if c == 'e' || c == 'E' then do
      let (negative, rest) := readSign rest
      let (ds, rest) ← digitRun Char.isDigit rest
      let size : Int := Text.ofDigits 10 Text.digitValue ds
      return (if negative then -size else size, rest)
    else some (0, c :: rest)

/-- The least number that is rounded to infinity in double precision. -/
def overflowBound : Nat :=
  Nat.pow 2 1024 - Nat.pow 2 970

/-- Is `ds`, read as a whole number, times ten to the power `exponent` too large for double
precision? -/
def overflows (ds : List Char) (exponent : Int) : Bool :=
  let ds := ds.dropWhile (· == '0')
  let places : Int := ds.length + exponent
  if ds.isEmpty || places < 309 then false
  else if places > 309 then true
  else
    let value := Text.ofDigits 10 Text.digitValue ds
    match exponent with
    | .ofNat e => overflowBound ≤ value * Nat.pow 10 e
    | .negSucc e => overflowBound * Nat.pow 10 (e + 1) ≤ value

/-- What stands in `cs` before `rest`. -/
def spelling (cs rest : List Char) : String :=
  String.ofList (cs.take (cs.length - rest.length))

/-- Reads the names of infinity and of what is not a number. -/
def readSpecial : List Char → Option (List Char)
  | 'i' :: 'n' :: 'f' :: rest => some rest
  | 'n' :: 'a' :: 'n' :: rest => some rest
  | _ => none

/-- Does a fraction or an exponent follow? -/
def isBroken : List Char → Bool
  | [] => false
  | c :: _ => c == '.' || c == 'e' || c == 'E'

/-- Reads a number with a point or an exponent. -/
def readFinite (cs : List Char) : Option (Toml × List Char) := do
  let (negative, rest) := readSign cs
  let (whole, rest) ← wholeRun rest
  if !isBroken rest then none
  else
    let (fraction, rest) ← readFraction rest
    let (exponent, rest) ← readExponent rest
    if !negative && overflows (whole ++ fraction) (exponent - fraction.length) then none
    else some (.float (spelling cs rest), rest)

/-- Reads a number with a point or an exponent, or one that is not finite. -/
def readFloat (cs : List Char) : Option (Toml × List Char) :=
  match readSpecial (readSign cs).2 with
  | some rest => some (.float (spelling cs rest), rest)
  | none => readFinite cs

/-- Reads exactly `n` digits as a number between two bounds. -/
def fixedDigits (n least greatest : Nat) (cs : List Char) : Option (Nat × List Char) :=
  let ds := cs.take n
  let value := Text.ofDigits 10 Text.digitValue ds
  if ds.length = n && ds.all Char.isDigit && least ≤ value && value ≤ greatest then
    some (value, cs.drop n)
  else none

/-- Reads one given character. -/
def mark (c : Char) : List Char → Option (List Char)
  | [] => none
  | d :: rest => if d = c then some rest else none

/-- The number of days of a month. -/
def daysIn (year month : Nat) : Nat :=
  if month = 2 then
    if year % 4 = 0 && (year % 100 ≠ 0 || year % 400 = 0) then 29 else 28
  else if month = 4 || month = 6 || month = 9 || month = 11 then 30
  else 31

/-- Reads a date. -/
def readDate (cs : List Char) : Option (List Char) := do
  let (year, cs) ← fixedDigits 4 0 9999 cs
  let cs ← mark '-' cs
  let (month, cs) ← fixedDigits 2 1 12 cs
  let cs ← mark '-' cs
  let (_, cs) ← fixedDigits 2 1 (daysIn year month) cs
  return cs

/-- Skips a point with digits behind it. -/
def skipFraction : List Char → List Char
  | '.' :: d :: rest => if d.isDigit then rest.dropWhile Char.isDigit else '.' :: d :: rest
  | cs => cs

/-- Reads a time of day. -/
def readTime (cs : List Char) : Option (List Char) := do
  let (_, cs) ← fixedDigits 2 0 23 cs
  let cs ← mark ':' cs
  let (_, cs) ← fixedDigits 2 0 59 cs
  let cs ← mark ':' cs
  let (_, cs) ← fixedDigits 2 0 60 cs
  return skipFraction cs

/-- Reads the offset of a time, if there is one. -/
def readOffset (cs : List Char) : Option (List Char) :=
  match cs with
  | [] => some []
  | c :: rest =>
    if c == 'Z' || c == 'z' then some rest
    else if c == '+' || c == '-' then do
      let (_, cs) ← fixedDigits 2 0 23 rest
      let cs ← mark ':' cs
      let (_, cs) ← fixedDigits 2 0 59 cs
      return cs
    else some cs

/-- Reads the time behind a date, if there is one. -/
def readTimeOfDate (cs : List Char) : Option (List Char) :=
  match cs with
  | [] => some []
  | c :: rest =>
    if c == 'T' || c == 't' || c == ' ' then
      match readTime rest with
      | some rest => readOffset rest
      | none => some cs
    else some cs

/-- Reads a point in time. -/
def readMoment (cs : List Char) : Option (Toml × List Char) := do
  let rest ← match readDate cs with
    | some rest => readTimeOfDate rest
    | none => readTime cs
  return (.moment (spelling cs rest), rest)

/-- Reads a truth value. -/
def readBool : List Char → Option (Toml × List Char)
  | 't' :: 'r' :: 'u' :: 'e' :: rest => some (.bool true, rest)
  | 'f' :: 'a' :: 'l' :: 's' :: 'e' :: rest => some (.bool false, rest)
  | _ => none

/-- Reads a value that is neither an array nor a table. -/
def readScalar (cs : List Char) : Option (Toml × List Char) :=
  match cs with
  | [] => none
  | c :: _ =>
    if c == '"' || c == '\'' then (readString cs).map fun (text, rest) => (.string text, rest)
    else if c == 't' || c == 'f' then readBool cs
    else (readMoment cs).or ((readFloat cs).or (readInteger cs))

end ServiceChains.Toml
