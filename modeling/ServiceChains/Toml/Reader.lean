import ServiceChains.Toml.Entries
import ServiceChains.Toml.Scalar

/-!
# Reading TOML

A document is a list of lines: blank ones, comments, assignments and headers. Arrays may go over
several lines and hold comments, tables between braces may not. How deep arrays and tables between
braces are nested is limited, and so is the number of parts of a dotted key.
-/
namespace ServiceChains.Toml

/-- Arrays, tables between braces and dotted keys have less than this many levels. -/
def depthLimit : Nat :=
  80

/-- What follows the blanks at the beginning. -/
def skipBlanks (cs : List Char) : List Char :=
  cs.dropWhile isTomlBlank

/-- What follows a comment, if there is one. -/
def skipComment : List Char → List Char
  | '#' :: rest => rest.dropWhile isPlain
  | cs => cs

/-- What follows the end of a line: blanks, perhaps a comment, and a line break or the end of the
text. -/
def lineEnd? (cs : List Char) : Option (List Char) :=
  match skipComment (skipBlanks cs) with
  | [] => some []
  | rest => afterBreak? rest

/-- What follows blanks, comments and line breaks. A comment has to end with its line. -/
def skipLines : Nat → List Char → Option (List Char)
  | 0, cs => some cs
  | fuel + 1, cs =>
    match skipBlanks cs with
    | '#' :: rest =>
      match afterBreak? (rest.dropWhile isPlain) with
      | some rest => skipLines fuel rest
      | none => none
    | rest =>
      match afterBreak? rest with
      | some rest => skipLines fuel rest
      | none => some rest

/-- A character of a key without quotes. -/
def isBareKey (c : Char) : Bool :=
  c.isAlphanum || c == '_' || c == '-'

/-- Reads one part of a key. -/
def keyPart (cs : List Char) : Option (String × List Char) :=
  match cs with
  | '"' :: rest => basicText [] rest
  | '\'' :: rest => literalText rest
  | _ =>
    match cs.takeWhile isBareKey with
    | [] => none
    | part => some (String.ofList part, cs.dropWhile isBareKey)

/-- Reads the parts of a key with the blanks around them. -/
def keyParts : Nat → List Char → Option (List String × List Char)
  | 0, _ => none
  | fuel + 1, cs => do
    let (part, rest) ← keyPart (skipBlanks cs)
    match skipBlanks rest with
    | '.' :: rest =>
      let (parts, rest) ← keyParts fuel rest
      return (part :: parts, rest)
    | rest => return ([part], rest)

/-- Reads a key. -/
def readKey (cs : List Char) : Option (Key × List Char) := do
  let (parts, rest) ← keyParts cs.length cs
  let name ← parts.getLast?
  if parts.length < depthLimit then some (⟨parts.dropLast, name⟩, rest) else none

mutual

/-- Reads a value in which arrays and tables may be nested `depth` levels. -/
def readValue : Nat → Nat → List Char → Option (Toml × List Char)
  | 0, _, _ => none
  | fuel + 1, depth, cs =>
    match cs with
    | '[' :: rest =>
      if depth = 0 then none
      else (readItems fuel (depth - 1) rest).map fun (items, rest) => (.array items, rest)
    | '{' :: rest =>
      if depth = 0 then none
      else
        match skipBlanks rest with
        | '}' :: rest => some (.table .inline [], rest)
        | rest =>
          match readPairs fuel (depth - 1) rest with
          | none => none
          | some (pairs, rest) =>
            (Entries.assignAll pairs []).map fun entries => (.table .inline entries, rest)
    | cs => readScalar cs

/-- Reads the items of an array up to its closing bracket. -/
def readItems : Nat → Nat → List Char → Option (List Toml × List Char)
  | 0, _, _ => none
  | fuel + 1, depth, cs =>
    match skipLines fuel cs with
    | none => none
    | some (']' :: rest) => some ([], rest)
    | some rest =>
      match readValue fuel depth rest with
      | none => none
      | some (item, rest) =>
        match skipLines fuel rest with
        | some (']' :: rest) => some ([item], rest)
        | some (',' :: rest) =>
          (readItems fuel depth rest).map fun (items, rest) => (item :: items, rest)
        | _ => none

/-- Reads the assignments between braces up to the closing one, at least one. -/
def readPairs : Nat → Nat → List Char → Option (List Assignment × List Char)
  | 0, _, _ => none
  | fuel + 1, depth, cs =>
    match readKey cs with
    | some (key, '=' :: rest) =>
      match readValue fuel depth (skipBlanks rest) with
      | none => none
      | some (value, rest) =>
        match skipBlanks rest with
        | '}' :: rest => some ([⟨key, value⟩], rest)
        | ',' :: rest =>
          (readPairs fuel depth rest).map fun (pairs, rest) => (⟨key, value⟩ :: pairs, rest)
        | _ => none
    | _ => none

end

/-- Reads an assignment with the end of its line. -/
def readAssignment (cs : List Char) : Option (Assignment × List Char) := do
  match ← readKey cs with
  | (key, '=' :: rest) =>
    let (value, rest) ← readValue (2 * rest.length + 2) (depthLimit - 1) (skipBlanks rest)
    let rest ← lineEnd? rest
    return (⟨key, value⟩, rest)
  | _ => none

/-- Reads a header with the end of its line: does it add an element to an array? -/
def readHeader (cs : List Char) : Option (Bool × Key × List Char) :=
  match cs with
  | '[' :: '[' :: rest => do
    match ← readKey rest with
    | (key, ']' :: ']' :: rest) => return (true, key, ← lineEnd? rest)
    | _ => none
  | '[' :: rest => do
    match ← readKey rest with
    | (key, ']' :: rest) => return (false, key, ← lineEnd? rest)
    | _ => none
  | _ => none

/-- Reads the lines of a document: the assignments before the first header, then the headers. -/
def readLines : Nat → List Char → Option Document
  | 0, _ => none
  | fuel + 1, cs =>
    match skipBlanks cs with
    | [] => some ⟨[], []⟩
    | '[' :: rest => do
      let (isElement, key, rest) ← readHeader ('[' :: rest)
      let d ← readLines fuel rest
      return ⟨[], ⟨key, isElement, d.assignments⟩ :: d.sections⟩
    | c :: rest =>
      if c == '#' || c == '\n' || c == '\r' then do
        readLines fuel (← lineEnd? (c :: rest))
      else do
        let (a, rest) ← readAssignment (c :: rest)
        let d ← readLines fuel rest
        return ⟨a :: d.assignments, d.sections⟩

/-- A text without the mark that may precede it. -/
def dropByteOrderMark : List Char → List Char
  | '\ufeff' :: rest => rest
  | cs => cs

/-- Reads a document as a table. -/
def parse? (text : String) : Option Entries := do
  let cs := dropByteOrderMark text.toList
  let d ← readLines (cs.length + 1) cs
  d.entries?

end ServiceChains.Toml
