import ServiceChains.Text.Blank

/-!
# Paths

A path is a text whose parts are divided by slashes. Joining two paths only puts a slash between
them: nothing is normalised, and an absolute path replaces what it is joined to. Empty parts and
parts that are a single dot do not count when the parts of a path are listed.
-/
namespace ServiceChains.Path

/-- The pieces of a text between the characters `sep`, empty ones included; never an empty list. -/
def splitAtChar (sep : Char) : List Char → List (List Char)
  | [] => [[]]
  | c :: cs =>
    if c = sep then [] :: splitAtChar sep cs
    else
      match splitAtChar sep cs with
      | [] => [[c]]
      | part :: parts => (c :: part) :: parts

/-- A path that starts at the root of the file system. -/
def isAbsolute (path : String) : Bool :=
  path.toList.head? == some '/'

/-- The path `other` seen from `base`. -/
def join (base other : String) : String :=
  if isAbsolute other || base.isEmpty then other
  else if base.toList.getLast? == some '/' then base ++ other
  else base ++ "/" ++ other

/-- Several names joined to a path, one after the other. -/
def joinAll (base : String) (names : List String) : String :=
  names.foldl join base

/-- The parts of a path that name something: neither empty nor a single dot. -/
def parts (path : String) : List String :=
  ((splitAtChar '/' path.toList).map String.ofList).filter fun part => part != "" && part != "."

/-- Does a path stand for the standard input where files are looked up? The name for it may be followed
by slashes and dots that lead nowhere. -/
def isStandardInput (path : String) : Bool :=
  path.toList.head? == some '-' && parts path == ["-"]

/-- The steps that a path takes. A slash at the end is a step that stays, so that only a directory
can stand before it. -/
def steps (path : String) : List String :=
  let pieces := ((splitAtChar '/' path.toList).map String.ofList).filter (· != "")
  if path.toList.getLast? == some '/' then pieces ++ ["."] else pieces

/-- The directories on the way to a path, outermost first, as paths. -/
def enclosing (path : String) : List String :=
  let start := if isAbsolute path then "/" else if (steps path).head? == some "." then "." else ""
  let names := parts path
  (List.range names.length).filterMap fun n =>
    if n = 0 then none else some (joinAll start (names.take n))

/-- The name of what a path leads to: its last part, unless that leads upwards. -/
def fileName? (path : String) : Option String :=
  match (parts path).getLast? with
  | some name => if name == ".." then none else some name
  | none => none

/-- A sequence cut at the last place of `sep` into what stands before and behind it. At the very
beginning `sep` does not divide anything. -/
def cutAtLast {α : Type} [BEq α] (sep : α) (xs : List α) : List α × Option (List α) :=
  if !xs.contains sep then (xs, none)
  else
    let after := (xs.reverse.takeWhile (· != sep)).reverse
    let before := xs.take (xs.length - after.length - 1)
    if before.isEmpty then (xs, none) else (before, some after)

/-- The name without its extension, which is what follows its last dot. -/
def stem? (path : String) : Option String :=
  (fileName? path).map fun name => String.ofList (cutAtLast '.' name.toList).1

end ServiceChains.Path
