import ServiceChains.Text.Blank

/-!
# HTTP verbs

The five verbs that a declaration or a call can carry. Any other verb is refused where it is read.
-/
namespace ServiceChains

/-- A supported HTTP verb, in the order in which verbs are compared. -/
inductive Verb where
  | get
  | post
  | put
  | delete
  | patch
  deriving DecidableEq, Repr, Inhabited

namespace Verb

/-- All verbs, in their order. -/
def all : List Verb :=
  [get, post, put, delete, patch]

/-- The upper-case name of a verb. -/
def name : Verb → String
  | get => "GET"
  | post => "POST"
  | put => "PUT"
  | delete => "DELETE"
  | patch => "PATCH"

/-- The position of a verb in the order of verbs. -/
def rank : Verb → Nat
  | get => 0
  | post => 1
  | put => 2
  | delete => 3
  | patch => 4

/-- The verb with exactly this name. -/
def ofName? (s : String) : Option Verb :=
  all.find? (·.name == s)

/-- The verb of a declaration or a call that names none. -/
def fallback : Verb :=
  get

theorem ofName?_name (v : Verb) : ofName? v.name = some v := by
  cases v <;> decide

end Verb

/-- A text that names no supported verb, trimmed and in upper case. -/
structure UnsupportedVerb where
  text : String
  deriving DecidableEq, Repr

namespace UnsupportedVerb

/-- The wording of the refusal. -/
def message (e : UnsupportedVerb) : String :=
  "unsupported HTTP verb: " ++ e.text

end UnsupportedVerb

namespace Verb

/-- Reads a verb: blanks around it and the case of its ASCII letters do not matter. -/
def parse (s : String) : Except UnsupportedVerb Verb :=
  let upper := String.ofList ((Text.trim s.toList).map Char.toUpper)
  match ofName? upper with
  | some v => .ok v
  | none => .error ⟨upper⟩

end Verb

end ServiceChains
