import ServiceChains.Chain.Node
import ServiceChains.Json.Quoted
import ServiceChains.Table

/-!
# Structural keys

The key of a chain is a text that does not depend on the method of its root, on any count or on the
order of siblings: a JSON object with its names in alphabetical order, in which the keys of the
children stand as sorted strings.
-/
namespace ServiceChains.ChainNode

/-- A text as a JSON value; `null` if there is none. -/
def quotedOrNull : Option String → String
  | some s => Json.quoted s
  | none => "null"

/-- The text of a key from its parts; the method is left out at a root. -/
def keyText (children : List String) (endpoint : Option String) (verb : Option Verb)
    (isLoop : Bool) (method : Option String) (service : String) : String :=
  "\x7b\"calls\":[" ++ ",".intercalate ((sortStrings children).map Json.quoted) ++
    "],\"endpoint\":" ++ quotedOrNull endpoint ++
    ",\"http_method\":" ++ quotedOrNull (verb.map Verb.name) ++
    ",\"loop\":" ++ (if isLoop then "true" else "false") ++
    ",\"method\":" ++ quotedOrNull method ++
    ",\"service\":" ++ Json.quoted service ++ "\x7d"

mutual

/-- The key of a node below a root. -/
def childKey : ChainNode → String
  | ⟨service, method, calls, endpoint, verb, _, isLoop⟩ =>
    keyText (childKeys calls) endpoint verb isLoop (some method) service

/-- The keys of several nodes below a root. -/
def childKeys : List ChainNode → List String
  | [] => []
  | n :: ns => childKey n :: childKeys ns

end

/-- The key of a root. -/
def structuralKey : ChainNode → String
  | ⟨service, _, calls, endpoint, verb, _, isLoop⟩ =>
    keyText (childKeys calls) endpoint verb isLoop none service

end ServiceChains.ChainNode
