import ServiceChains.CallSite
import ServiceChains.Endpoint

/-!
# Matching calls with endpoints

A call reaches an endpoint of its target service when the verbs agree and the path fits: the
template accepts it, or both are equal apart from slashes at the ends, or the path ends in a slash
and begins a template with placeholders. Among several such endpoints a policy chooses.
-/
namespace ServiceChains

/-- Which of several fitting endpoints a call reaches. -/
inductive Policy where
  /-- the first in the catalog -/
  | first
  /-- the one with the longest text before its first placeholder -/
  | longestPrefix
  deriving DecidableEq, Repr, Inhabited

/-- A text that names no policy, trimmed. -/
structure UnknownPolicy where
  text : String
  deriving DecidableEq, Repr

namespace UnknownPolicy

/-- The wording of the refusal. -/
def message (e : UnknownPolicy) : String :=
  "unknown match policy: " ++ e.text

end UnknownPolicy

namespace Policy

/-- The name of a policy in settings and on the command line. -/
def name : Policy → String
  | first => "first"
  | longestPrefix => "longest-prefix"

/-- The policy with exactly this name. -/
def ofName? (s : String) : Option Policy :=
  [first, longestPrefix].find? (·.name == s)

/-- Reads a policy; blanks around its name do not matter. -/
def parse (s : String) : Except UnknownPolicy Policy :=
  let name := Text.trimmed s
  match ofName? name with
  | some p => .ok p
  | none => .error ⟨name⟩

theorem ofName?_name (p : Policy) : ofName? p.name = some p := by
  cases p <;> decide

end Policy

/-- The path with a slash in front. -/
def withLeadingSlash (path : List Char) : List Char :=
  match path with
  | '/' :: _ => path
  | _ => '/' :: path

namespace Endpoint

/-- Does a call with this path and verb reach the endpoint? -/
def satisfies (e : Endpoint) (path : String) (verb : Verb) : Bool :=
  let raw := Text.stripWhile (· == '"') path.toList
  let bare := Text.trimSlashes raw
  let template := Text.trimSlashes e.template.toList
  e.verb == verb &&
    (e.accepts (withLeadingSlash raw) || bare == template ||
      (raw.getLast? == some '/' && bare.isPrefixOf template && e.isTemplated))

/-- The first endpoint with the longest literal text before a placeholder. -/
def longest? (es : List Endpoint) : Option Endpoint :=
  es.foldl
    (fun best e =>
      match best with
      | none => some e
      | some b => if b.literalPrefixSize < e.literalPrefixSize then some e else some b)
    none

end Endpoint

namespace Policy

/-- The endpoint that a policy chooses from those that fit, given in catalog order. -/
def choose (p : Policy) (fitting : List Endpoint) : Option Endpoint :=
  match p with
  | first => fitting.head?
  | longestPrefix => Endpoint.longest? fitting

end Policy

namespace Catalog

/-- The endpoint that a call reaches, if there is one. -/
def match? (c : Catalog) (p : Policy) (site : CallSite) : Option Endpoint :=
  p.choose ((c.endpoints site.target).filter (·.satisfies site.endpoint site.verb))

end Catalog

end ServiceChains
