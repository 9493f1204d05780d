import ServiceChains.FileTree
import ServiceChains.Text.Blank

/-!
# Ignore files

An ignore file hides files and directories at or below its own directory, a pattern a line. In a
pattern `*` stands for any characters of a name, `?` for one, and `**` for any directories. A
pattern with a slash other than at its end is matched from the directory of the ignore file on, any
other pattern at any depth. A slash at the end restricts it to directories, an exclamation mark in
front makes it show what it matches. The last pattern of a file that matches decides, and a deeper
ignore file decides before one further up.
-/
namespace ServiceChains.Ignore

/-- A piece of the pattern of a name. -/
inductive Piece where
  | char (c : Char)
  | one
  | run
  deriving DecidableEq, Repr

/-- A step of the pattern of a path. -/
inductive Step where
  | anyDepth
  | name (pattern : List Piece)
  deriving DecidableEq, Repr

/-- One line of an ignore file. -/
structure Rule where
  pattern : List Step
  shows : Bool
  onlyDirectories : Bool
  deriving DecidableEq, Repr

/-- Does a name fit a pattern? -/
def fitsName : List Piece → List Char → Bool
  | [], cs => cs.isEmpty
  | .char x :: ps, c :: cs => x == c && fitsName ps cs
  | .one :: ps, _ :: cs => fitsName ps cs
  | .run :: ps, [] => fitsName ps []
  | .run :: ps, c :: cs => fitsName ps (c :: cs) || fitsName (.run :: ps) cs
  | _ :: _, [] => false
termination_by ps cs => ps.length + cs.length

/-- Does a location, seen from the directory of the ignore file, fit a pattern? -/
def fits : List Step → Location → Bool
  | [], place => place.isEmpty
  | .name p :: ps, name :: names => fitsName p name.display.toList && fits ps names
  | .name _ :: _, [] => false
  | [.anyDepth], _ => true
  | .anyDepth :: ps, [] => fits ps []
  | .anyDepth :: ps, name :: names => fits ps (name :: names) || fits (.anyDepth :: ps) names
termination_by ps place => ps.length + place.length

/-- The pieces of the pattern of a name. A backslash takes the next character as it is, and has to
have one. -/
def pieces? : List Char → Option (List Piece)
  | [] => some []
  | '\\' :: c :: cs => (pieces? cs).map (.char c :: ·)
  | '\\' :: [] => none
  | '*' :: cs => (pieces? cs).map (.run :: ·)
  | '?' :: cs => (pieces? cs).map (.one :: ·)
  | c :: cs => (pieces? cs).map (.char c :: ·)

/-- The step that a part of a pattern denotes. -/
def step? (part : List Char) : Option Step :=
  if part == ['*', '*'] then some .anyDepth else (pieces? part).map .name

/-- The steps of a pattern. Something has to follow `**` at the end of a longer pattern. -/
def steps? (isAnchored : Bool) (pattern : List Char) : Option (List Step) :=
  if !isAnchored && pattern.isEmpty then some [.anyDepth]
  else do
    let steps ← (Path.splitAtChar '/' pattern).mapM step?
    let steps := if steps.length > 1 && steps.getLast? == some .anyDepth
      then steps ++ [.name [.run]] else steps
    return if isAnchored || pattern.contains '/' then steps else .anyDepth :: steps

/-- A line without the blanks at its end, unless the last one is escaped. -/
def trimLine (line : List Char) : List Char :=
  if ['\\', ' '].isSuffixOf line then line else Text.dropEndWhile Text.isBlank line

/-- A pattern without the slash at its end, and whether it had one. -/
def cutLastSlash (pattern : List Char) : Bool × List Char :=
  if pattern.getLast? == some '/' then
    let pattern := pattern.dropLast
    (true, if pattern.getLast? == some '\\' then pattern.dropLast else pattern)
  else (false, pattern)

/-- The rule of a line, unless it is blank, a comment or broken. -/
def Rule.ofLine? (line : List Char) : Option Rule :=
  if line.head? == some '#' then none
  else
    match trimLine line with
    | [] => none
    | '\\' :: '!' :: rest => build false false ('!' :: rest)
    | '\\' :: '#' :: rest => build false false ('#' :: rest)
    | '!' :: '/' :: rest => build true true rest
    | '!' :: rest => build true false rest
    | '/' :: rest => build false true rest
    | rest => build false false rest
where
  /-- The rule of a pattern without the marks at its beginning. -/
  build (shows isAnchored : Bool) (pattern : List Char) : Option Rule :=
    let (onlyDirectories, pattern) := cutLastSlash pattern
    (steps? isAnchored pattern).map fun steps => ⟨steps, shows, onlyDirectories⟩

/-- The rules of an ignore file. -/
def rules (text : String) : List Rule :=
  let cs := text.toList
  let cs := if cs.head? == some '\ufeff' then cs.drop 1 else cs
  (Path.splitAtChar '\n' cs).filterMap fun line =>
    Rule.ofLine? (if line.getLast? == some '\r' then line.dropLast else line)

/-- What rules say about a location: hide it, show it, or nothing. -/
def verdict? (rules : List Rule) (place : Location) (isDirectory : Bool) : Option Bool :=
  (rules.reverse.find? fun r => (isDirectory || !r.onlyDirectories) && fits r.pattern place).map
    fun r => !r.shows

/-- The ignore files of a directory, the more important first. -/
def fileNames : List (List String) :=
  [[".ignore"], [".gitignore"], [".git", "info", "exclude"]]

/-- The rules of an ignore file of a directory, if it is there. -/
def rulesAt (t : FileTree) (directory : Location) (name : List String) : List Rule :=
  match t.follow true FileTree.linkLimit directory name with
  | .error _ => []
  | .ok place =>
    match t.node? place with
    | some (.file content) => ((String.fromUTF8? content).map rules).getD []
    | _ => []

/-- Is what stands at a location hidden by the ignore files of the directories above it? -/
def hides (t : FileTree) (place : Location) (isDirectory : Bool) : Bool :=
  let depths := (List.range place.length).reverse
  let verdict := fileNames.findSome? fun name =>
    depths.findSome? fun n =>
      verdict? (rulesAt t (place.take n) name) (place.drop n) isDirectory
  verdict.getD false

/-- Is a file below `top` hidden, itself or with a directory between `top` and it? -/
def hidesBelow (t : FileTree) (top relative : Location) : Bool :=
  (List.range relative.length).any fun n =>
    hides t (top ++ relative.take (n + 1)) (decide (n + 1 < relative.length))

end ServiceChains.Ignore
