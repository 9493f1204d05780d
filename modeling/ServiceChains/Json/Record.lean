import ServiceChains.Json.Value
import ServiceChains.Verb

/-!
# Records in JSON

A record with named fields is written as an object, or as an array of its values in the order of the
names. In an object unknown names are ignored and a known name may occur once; an array may end
early but has no further items. Values that are looked into may be nested to a limited depth: each
level of arrays and objects takes one from a budget.
-/
namespace ServiceChains.Json

/-- How deep arrays and objects may be nested. -/
def nestingLimit : Nat :=
  127

/-- The text of a string. -/
def text? : Json → Option String
  | .string text => text
  | _ => none

/-- The truth value of a literal. -/
def bool? : Json → Option Bool
  | .bool b => some b
  | _ => none

/-- A number without sign, fraction and exponent that fits into 64 bits. -/
def word? : Json → Option UInt64
  | .number text => Text.readDigits? text.toList
  | _ => none

/-- The items of an array, and the budget left for them. -/
def items? (budget : Nat) : Json → Option (Nat × List Json)
  | .array items => if budget = 0 then none else some (budget - 1, items)
  | _ => none

/-- A verb by name, or as an object whose only field is named for it and `null`. -/
def verb? (budget : Nat) : Json → Option Verb
  | .string text => text.bind Verb.ofName?
  | .object [(some name, .null)] => if budget = 0 then none else Verb.ofName? name
  | _ => none

/-- A value that may be `null`. -/
def nullable? {α : Type} (read : Json → Option α) : Json → Option (Option α)
  | .null => some none
  | j => (read j).map some

/-- A field that has to be there. -/
def required? {α : Type} (read : Json → Option α) (value : Option Json) : Option α :=
  value.bind read

/-- A field that may be missing. -/
def defaulted? {α : Type} (missing : α) (read : Json → Option α) (value : Option Json) :
    Option α :=
  match value with
  | none => some missing
  | some j => read j

/-- The values of the fields of an object, in the order of `names`. -/
def objectValues? (names : List String) (fields : List (Option String × Json)) :
    Option (List (Option Json)) :=
  if fields.any (·.1.isNone) then none
  else
    names.mapM fun name =>
      match fields.filter (·.1 == some name) with
      | [] => some none
      | [(_, value)] => some (some value)
      | _ => none

/-- The values of a record, in the order of its names. -/
def values? (names : List String) : Json → Option (List (Option Json))
  | .object fields => objectValues? names fields
  | .array items =>
    if items.length ≤ names.length then
      some (items.map some ++ List.replicate (names.length - items.length) none)
    else none
  | _ => none

end ServiceChains.Json
