import ServiceChains.Source.Method
import ServiceChains.Source.SourceUnit
import ServiceChains.Verb

/-!
# Mapping annotations

A mapping annotation binds the method whose header follows next to a verb and a path. The path is
the first argument or the argument named `value` or `path`, without slashes at its ends. The first
plain request mapping ahead of the type declaration belongs to the type: its path stands in front of
those of the methods.
-/
namespace ServiceChains.Source

open Text

/-- The kinds of mapping annotations: those that fix a verb, and the plain one. -/
def mappingKinds : List (List Char × Option Verb) :=
  [("Get".toList, some .get), ("Post".toList, some .post), ("Put".toList, some .put),
    ("Delete".toList, some .delete), ("Patch".toList, some .patch), ("Request".toList, none)]

/-- A mapping annotation: the verb that its kind fixes, and its arguments if it has any. -/
structure Mapping where
  verb : Option Verb
  arguments : Option (List Char)

/-- The arguments of an annotation between parentheses. -/
def mappingArguments : Reader (List Char) := fun c => do
  let c ← (c.skipWhile isBlank).char '('
  c.upTo ')'

/-- A mapping annotation with or without arguments. -/
def mapping : Reader Mapping := fun c => do
  let c ← c.char '@'
  let (verb, c) ← c.oneOf mappingKinds
  let c ← c.text "Mapping".toList
  if c.sees isWord then none
  match mappingArguments c with
  | some (arguments, c) => return (⟨verb, some arguments⟩, c)
  | none => return (⟨verb, none⟩, c)

/-- The declaration of a type: a keyword that begins a word, and a name behind it. -/
def typeDeclaration : Reader Unit := fun c => do
  if c.follows isWord then none
  let (_, c) ← c.oneOf (["class", "interface", "enum"].map fun word => (word.toList, ()))
  let (_, c) ← c.run1 isBlank
  let (_, c) ← c.run1 isWord
  return ((), c)

/-- A quoted path, perhaps behind an opening brace. -/
def quotedPath : Reader (List Char) := fun c => do
  let c := (c.char '{').getD c
  let c ← (c.skipWhile isBlank).char '"'
  c.upTo '"'

/-- The path among the arguments of an annotation: the first argument, or one that is named for it.
-/
def pathArgument : Reader (List Char) := fun c =>
  let leading := if c.offset = 0 then quotedPath (c.skipWhile isBlank) else none
  leading <|> do
    if c.follows isWord then none
    let (_, c) ← c.oneOf [("value".toList, ()), ("path".toList, ())]
    let c ← (c.skipWhile isBlank).char '='
    quotedPath (c.skipWhile isBlank)

/-- A constant of an enumeration with a given name. -/
def constantOf (enumeration : List Char) : Reader (List Char) := fun c => do
  let c ← c.text enumeration
  let c ← c.char '.'
  c.run1 isWord

namespace Mapping

/-- The path of an annotation without slashes at its ends; empty if it names none. -/
def path (m : Mapping) : List Char :=
  trimSlashes ((m.arguments.bind (first? pathArgument)).getD [])

/-- The verb of an annotation: that of its kind, else the one its arguments name, else the usual
one. -/
def effectiveVerb (m : Mapping) : Except UnsupportedVerb Verb :=
  match m.verb with
  | some verb => .ok verb
  | none =>
    match m.arguments.bind (first? (constantOf "RequestMethod".toList)) with
    | some name => Verb.parse (String.ofList name)
    | none => .ok Verb.fallback

end Mapping

/-- A declared route as written in a source: not yet checked for a usable template. -/
structure Declaration where
  unit : String
  method : String
  path : String
  verb : Verb
  deriving DecidableEq, Repr

/-- Two path fragments with a slash between them, unless one is empty. -/
def joinFragments (base fragment : List Char) : List Char :=
  if base.isEmpty then fragment
  else if fragment.isEmpty then base
  else base ++ '/' :: fragment

/-- The mapping annotation of the type in a text with its comments blanked: the first plain one
ahead of the type declaration. -/
def typeMapping? (code : List Char) : Option (Found Mapping) :=
  match (scan typeDeclaration (blank true code)).head? with
  | none => none
  | some type => (scan mapping (takeBytes type.start code)).find? (·.value.verb.isNone)

/-- The routes that a source file declares. -/
def declarations (fileName : String) (source : List Char) : List Declaration :=
  let code := blank false source
  let unit := unitName fileName code
  let found := headers code
  let ofType := typeMapping? code
  let base := (ofType.map (·.value.path)).getD []
  (scan mapping code).filterMap fun m =>
    if some m.start == ofType.map (·.start) then none
    else
      match m.value.effectiveVerb, found.find? (fun h => m.stop ≤ h.start) with
      | .ok verb, some h =>
        some ⟨unit, h.name, String.ofList (joinFragments base m.value.path), verb⟩
      | _, _ => none

end ServiceChains.Source
