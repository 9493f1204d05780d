import ServiceChains.Path
import ServiceChains.Text.Blank
import ServiceChains.Text.Cursor
import ServiceChains.Text.Word

/-!
# Units

A source file is a unit. It is named after the file without its extension, behind the package that
its text declares first.
-/
namespace ServiceChains.Source

open Text

/-- A package declaration: the name of the package. -/
def packageDeclaration : Reader (List Char) := fun c => do
  let c ← c.text "package".toList
  let (_, c) ← c.run1 isBlank
  let (name, c) ← c.run1 fun x => isWord x || x == '.'
  let c ← (c.skipWhile isBlank).char ';'
  return (name, c)

/-- The name of the unit in a file with this name and text. -/
def unitName (fileName : String) (text : List Char) : String :=
  let unit := (Path.stem? fileName).getD fileName
  match first? packageDeclaration text with
  | some package => String.ofList package ++ "." ++ unit
  | none => unit

end ServiceChains.Source
