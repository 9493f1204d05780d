/-!
# TOML values

Numbers with a point and points in time keep their spelling, since no setting looks into them. A
table remembers how it came about, because that decides what may still be added to it.
-/
namespace ServiceChains

/-- How a table came about. -/
inductive Toml.Origin where
  /-- written between braces -/
  | inline
  /-- by a header of its own, or as the whole document -/
  | header
  /-- on the way to the table of another header -/
  | implied
  /-- on the way to a value with a dotted key -/
  | dotted
  deriving DecidableEq, Repr

/-- A TOML value. `tables` is an array whose elements are given by headers. -/
inductive Toml where
  | string (text : String)
  | integer (value : Int)
  | float (spelling : String)
  | bool (value : Bool)
  | moment (spelling : String)
  | array (items : List Toml)
  | tables (elements : List (List (String × Toml)))
  | table (origin : Toml.Origin) (entries : List (String × Toml))

/-- Integers lie below this number, and not below its negative. -/
def Toml.integerBound : Nat :=
  9223372036854775808

/-- The values of a table under their keys. -/
abbrev Toml.Entries := List (String × Toml)

end ServiceChains
