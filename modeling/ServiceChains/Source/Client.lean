import ServiceChains.CallSite
import ServiceChains.Source.Mapping

/-!
# Client calls

A client call is an operation on the REST template of a source. Its first argument is an expression
for the address, its second may name the verb. The target service is that of a variable bound to a
service address whose name begins the expression, or the one that the expression asks for itself.
-/
namespace ServiceChains.Source

open Text

/-- How an operation determines the verb of a call. -/
inductive OperationVerb where
  | fixed (verb : Verb)
  /-- named by the second argument -/
  | named
  deriving DecidableEq, Repr

/-- The operations of the REST template. -/
def operations : List (List Char × OperationVerb) :=
  [("exchange".toList, .named), ("getForObject".toList, .fixed .get),
    ("getForEntity".toList, .fixed .get), ("postForObject".toList, .fixed .post),
    ("postForEntity".toList, .fixed .post), ("put".toList, .fixed .put),
    ("delete".toList, .fixed .delete), ("patchForObject".toList, .fixed .patch)]

/-- A client call: how its verb is determined, its address expression and its second argument. -/
structure ClientCall where
  operation : OperationVerb
  address : List Char
  second : List Char

/-- One argument: blanks, and a nonempty text without comma and semicolon. Blanks alone are an
argument as well. -/
def argument : Reader (List Char) := fun c => do
  let inside : Char → Bool := fun x => x != ',' && x != ';'
  match (c.skipWhile isBlank).run1 inside with
  | some found => return found
  | none =>
    let (blanks, c) ← c.run1 isBlank
    return (blanks, c)

/-- A client call and its first two arguments. -/
def clientCall : Reader ClientCall := fun c => do
  let c ← c.text "restTemplate.".toList
  let (operation, c) ← c.oneOf operations
  let c ← c.char '('
  let (address, c) ← argument c
  match (c.char ',').bind argument with
  | some (second, c) => return (⟨operation, trim address, trim second⟩, c)
  | none => return (⟨operation, trim address, []⟩, c)

/-- A request for the address of a service: the name of the service. -/
def serviceAddress : Reader (List Char) := fun c => do
  let c ← c.text "getServiceUrl(\"".toList
  let (service, c) ← c.upTo1 '"'
  let c ← c.char ')'
  return (service, c)

/-- A variable bound to the address of a service. -/
def addressBinding : Reader (String × String) := fun c => do
  if c.follows isWord then none
  let (name, c) ← c.run1 isWord
  let c ← (c.skipWhile isBlank).char '='
  let (service, c) ← serviceAddress (c.skipWhile isBlank)
  return ((String.ofList name, String.ofList service), c)

/-- A nonempty text between quotes. -/
def quotedText : Reader (List Char) := fun c => do
  let c ← c.char '"'
  c.upTo1 '"'

/-- A nonempty text between quotes behind a plus sign. -/
def appendedText : Reader (List Char) := fun c => do
  let c ← c.char '+'
  quotedText (c.skipWhile isBlank)

/-- Binds a variable: a later binding replaces the service of an earlier one in its place. -/
def bindVariable (bindings : List (String × String)) (new : String × String) :
    List (String × String) :=
  if bindings.any (·.1 == new.1) then
    bindings.map fun old => if old.1 == new.1 then new else old
  else bindings ++ [new]

/-- The variables of a source that hold the address of a service, in order of first appearance. -/
def bindings (source : List Char) : List (String × String) :=
  ((scan addressBinding source).map Found.value).foldl bindVariable []

/-- The text of a find, or the word for what is unknown. -/
def textOrUnknown (found : Option (List Char)) : String :=
  (found.map String.ofList).getD unknownName

/-- The target service and the path of an address expression. -/
def resolve? (bindings : List (String × String)) (address : List Char) :
    Option (String × String) :=
  match bindings.find? (fun b => b.1.toList.isPrefixOf address) with
  | some (_, service) => some (service, textOrUnknown (first? quotedText address))
  | none =>
    (first? serviceAddress address).map fun service =>
      (String.ofList service, textOrUnknown (first? appendedText address))

namespace ClientCall

/-- The verb of a call. -/
def verb (call : ClientCall) : Except UnsupportedVerb Verb :=
  match call.operation with
  | .fixed verb => .ok verb
  | .named =>
    match first? (constantOf "HttpMethod".toList) call.second with
    | some name => Verb.parse (String.ofList name)
    | none => .ok Verb.fallback

end ClientCall

/-- The name of the method around an offset: the last whose header begins before it. -/
def enclosingMethod (found : List Header) (offset : Nat) : String :=
  ((found.reverse.find? (fun h => h.start < offset)).map (·.name)).getD unknownName

/-- The calls of a source file that name a supported verb and a target, made by a given service. -/
def callSites (service fileName : String) (source : List Char) : List CallSite :=
  let unit := unitName fileName source
  let found := headers (blank false source)
  let bound := bindings source
  (scan clientCall source).filterMap fun call =>
    match call.value.verb, resolve? bound call.value.address with
    | .ok verb, some (target, endpoint) =>
      some ⟨service, unit ++ "." ++ enclosingMethod found call.start, target, endpoint, verb⟩
    | _, _ => none

/-- Does the name of a file carry the marker of files that make no calls? -/
def isExcluded (marker fileName : String) : Bool :=
  !marker.isEmpty && occursIn marker.toList fileName.toList

/-- The calls of a source file unless its name carries the marker. -/
def unitCalls (marker service fileName : String) (source : List Char) : List CallSite :=
  if isExcluded marker fileName then [] else callSites service fileName source

end ServiceChains.Source
