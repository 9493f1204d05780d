import ServiceChains.Source.Region
import ServiceChains.Text.Blank
import ServiceChains.Text.Word

/-!
# Methods of a source text

A method header is a modifier, or a blank, followed by spaces, a type, a name, a parameter list,
perhaps a list of exceptions, and an opening brace. Headers are searched in the text with its
comments blanked. A control statement can look like a header; its type or name is a keyword, and it
is passed over.

The body of a method extends from the end of its header to the next header. The names in front of an
opening parenthesis in a body are the calls of the method.
-/
namespace ServiceChains.Source

open Text

/-- The words that may begin a header. -/
def modifiers : List (List Char × Unit) :=
  ["public", "protected", "private", "static"].map fun word => (word.toList, ())

/-- Words that look like the type of a method but never are. -/
def typeKeywords : List String :=
  ["new", "return", "else", "throw", "case", "yield"]

/-- Words that look like the name of a method but never are. -/
def nameKeywords : List String :=
  ["if", "for", "while", "switch", "catch", "synchronized", "try", "do", "else", "return", "new",
    "throw", "super", "this"]

/-- The characters of a type outside its type arguments. -/
def isTypeChar (c : Char) : Bool :=
  isWord c || c == '[' || c == ']' || c == '?' || c == '.'

/-- The characters of type arguments. -/
def isArgumentChar (c : Char) : Bool :=
  isTypeChar c || isBlank c || c == ',' || c == '<' || c == '>'

/-- What begins a header: a modifier or a single blank. -/
def headerStart (c : Cursor) : Option Cursor :=
  match c.rest with
  | [] => none
  | x :: rest =>
    if isBlank x then some ⟨some x, c.offset + x.utf8Size, rest⟩
    else (c.oneOf modifiers).map (·.2)

/-- Passes over pairs of square brackets. -/
def skipBrackets (before : Option Char) (offset : Nat) : List Char → Cursor
  | '[' :: ']' :: rest => skipBrackets (some ']') (offset + 2) rest
  | rest => ⟨before, offset, rest⟩

/-- The places behind the closing angle brackets of a run of type arguments, last first, each with
the arguments before it in reverse. -/
def argumentEnds (before : List Char) (ends : List (List Char × Cursor)) (offset : Nat) :
    List Char → List (List Char × Cursor)
  | [] => ends
  | c :: rest =>
    if isArgumentChar c then
      let offset := offset + c.utf8Size
      let ends := if c = '>' then (before, ⟨some c, offset, rest⟩) :: ends else ends
      argumentEnds (c :: before) ends offset rest
    else ends

/-- The rest of a header behind its type: name, parameters, exceptions and opening brace. -/
def headerTail : Reader (List Char) := fun c => do
  let (_, c) ← c.run1 isBlank
  let (name, c) ← c.run1 isWord
  let c := c.skipWhile (· == ' ')
  let c ← c.char '('
  let (_, c) ← c.upTo ')'
  let c := c.skipWhile (· == ' ')
  let c ← match c.text "throws ".toList with
    | some c => (c.run1 (· != '{')).map (·.2)
    | none => some c
  let c ← c.char '{'
  return (name, c)

/-- A header behind what begins it: its type and its name. Of several closing angle brackets that
could end the type the last that lets the header go on is taken. -/
def signature : Reader (List Char × List Char) := fun c => do
  let (_, c) ← c.run1 (· == ' ')
  let (type, c) ← c.run1 isTypeChar
  match c.rest with
  | '<' :: rest =>
    (argumentEnds [] [] (c.offset + 1) rest).findSome? fun (arguments, c) => do
      let (name, c) ← headerTail (skipBrackets c.before c.offset c.rest)
      return ((type ++ '<' :: arguments.reverse ++ ['>'], name), c)
  | _ =>
    let (name, c) ← headerTail c
    return ((type, name), c)

/-- A method header wherever it may begin: its type and its name. -/
def anyHeader : Reader (List Char × List Char) := fun c =>
  (headerStart c).bind signature

/-- A method header. A space behind a blank is passed over: it begins no header that the blank does
not begin already. -/
def header : Reader (List Char × List Char) := fun c =>
  if c.sees (· == ' ') && c.follows isBlank then none else anyHeader c

/-- A method header in a text: its name and where it begins and ends. -/
structure Header where
  name : String
  start : Nat
  stop : Nat
  deriving DecidableEq, Repr

/-- The method headers of a text whose comments are blanked. -/
def headers (code : List Char) : List Header :=
  (scan header code).filterMap fun found =>
    let type := String.ofList found.value.1
    let name := String.ofList found.value.2
    if typeKeywords.contains type || nameKeywords.contains name then none
    else some ⟨name, found.start, found.stop⟩

/-- A method with the byte offsets between which its body lies. -/
structure MethodSpan where
  name : String
  start : Nat
  stop : Nat
  deriving DecidableEq, Repr

/-- The span of each header: up to the next header, or to the end of a text of `size` bytes. -/
def spans (size : Nat) : List Header → List MethodSpan
  | [] => []
  | [h] => [⟨h.name, h.stop, max size h.stop⟩]
  | h :: next :: rest => ⟨h.name, h.stop, max next.start h.stop⟩ :: spans size (next :: rest)

/-- The methods of a source text. -/
def methods (source : List Char) : List MethodSpan :=
  spans (byteSize source) (headers (blank false source))

/-- Collects the names in front of an opening parenthesis; `run` is the name read so far and `found`
are the earlier ones, both last first. -/
def callsFrom (run : List Char) (found : List String) : List Char → List String
  | [] => found.reverse
  | c :: cs =>
    if isWord c then callsFrom (c :: run) found cs
    else if c = '(' && !run.isEmpty then callsFrom [] (String.ofList run.reverse :: found) cs
    else callsFrom [] found cs

/-- The names directly in front of an opening parenthesis, one for each occurrence. -/
def calls (body : List Char) : List String :=
  callsFrom [] [] body

end ServiceChains.Source
