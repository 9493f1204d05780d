import ServiceChains.Json.Quoted

/-!
# JSON values and their layout

A value is written over several lines: every item of an array and every field of an object has its
own line, two spaces further in than the line that opens it. Empty arrays and objects stay on one
line, and the text does not end with a line break.
-/
namespace ServiceChains

/-- A JSON value. Numbers are kept as written. A string, or the name of a field, has no text when
its escapes leave one half of a surrogate pair without the other. -/
inductive Json where
  | null
  | bool (value : Bool)
  | number (text : String)
  | string (text : Option String)
  | array (items : List Json)
  | object (fields : List (Option String × Json))

namespace Json

/-- A string value with a text. -/
def text (s : String) : Json :=
  .string (some s)

/-- A number that is a 64-bit word. -/
def word (n : UInt64) : Json :=
  .number (Text.decimal n.toNat)

/-- A field with a name. -/
def field (name : String) (value : Json) : Option String × Json :=
  (some name, value)

/-- A field that is only there if it has a value. -/
def field? (name : String) (value : Option Json) : List (Option String × Json) :=
  (value.map (field name)).toList

/-- A line break and the spaces at the beginning of a line. -/
def newLine (depth : Nat) : List Char :=
  '\n' :: List.replicate (2 * depth) ' '

/-- A string with or without a text, between quotes. -/
def quoteText (text : Option String) : List Char :=
  quote ((text.map String.toList).getD [])

mutual

/-- The layout of a value that begins on a line at a given depth. -/
def layout (depth : Nat) : Json → List Char
  | .null => "null".toList
  | .bool true => "true".toList
  | .bool false => "false".toList
  | .number text => text.toList
  | .string text => quoteText text
  | .array [] => "[]".toList
  | .array (item :: items) =>
    '[' :: newLine (depth + 1) ++ layout (depth + 1) item ++ layoutItems (depth + 1) items ++
      newLine depth ++ [']']
  | .object [] => ['{', '}']
  | .object ((name, value) :: fields) =>
    '{' :: newLine (depth + 1) ++ quoteText name ++ ": ".toList ++ layout (depth + 1) value ++
      layoutFields (depth + 1) fields ++ newLine depth ++ ['}']

/-- The layout of the further items of an array. -/
def layoutItems (depth : Nat) : List Json → List Char
  | [] => []
  | item :: items => ',' :: newLine depth ++ layout depth item ++ layoutItems depth items

/-- The layout of the further fields of an object. -/
def layoutFields (depth : Nat) : List (Option String × Json) → List Char
  | [] => []
  | (name, value) :: fields =>
    ',' :: newLine depth ++ quoteText name ++ ": ".toList ++ layout depth value ++
      layoutFields depth fields

end

/-- The text of a value. -/
def render (j : Json) : String :=
  String.ofList (layout 0 j)

end Json

end ServiceChains
