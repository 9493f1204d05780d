import ServiceChains.FileTree.Name

/-!
# File trees

A file tree lists what stands where: files, directories and symbolic links, each at a location,
which is the list of the names that lead to it from the root. The root itself is always a directory.
A path is followed step by step; links on its way are followed too, up to a limit. Relative paths
start at the working directory.
-/
namespace ServiceChains

/-- Where something stands: the names that lead to it from the root. -/
abbrev Location := List FileName

/-- The order of locations: a directory before what it contains, neighbours in the order of the bytes
of their names. -/
def Location.le : Location → Location → Bool
  | [], _ => true
  | _ :: _, [] => false
  | a :: as, b :: bs => if a = b then Location.le as bs else decide (a.bytes ≤ b.bytes)

/-- What stands at a location. -/
inductive FileNode where
  | file (content : ByteArray)
  | directory
  | link (target : String)

/-- What stands where. -/
structure FileTree where
  entries : List (Location × FileNode) := []
  workingDirectory : Location := []

/-- Why a path cannot be followed. -/
inductive PathError where
  | missing
  | notDirectory
  | nameTooLong
  | tooManyLinks
  deriving DecidableEq, Repr

/-- The wording of the system for a path that cannot be followed. -/
def PathError.message : PathError → String
  | missing => "No such file or directory (os error 2)"
  | notDirectory => "Not a directory (os error 20)"
  | nameTooLong => "File name too long (os error 36)"
  | tooManyLinks => "Too many levels of symbolic links (os error 40)"

namespace FileTree

/-- What stands at a location. -/
def node? (t : FileTree) (place : Location) : Option FileNode :=
  if place.isEmpty then some .directory else t.entries.lookup place

/-- How many links may be followed on the way of one path. -/
def linkLimit : Nat :=
  40

/-- How many bytes a name may have. -/
def nameLimit : Nat :=
  255

/-- Takes steps from a location; they are texts, as paths are. A link at the very end is followed only
if `last` says so. The last step may lead to a place where nothing stands yet. -/
def follow (t : FileTree) (last : Bool) (links : Nat) (place : Location) (steps : List String) :
    Except PathError Location :=
  match steps with
  | [] => .ok place
  | step :: rest =>
    match t.node? place with
    | none => .error .missing
    | some .directory =>
      if step = "." then t.follow last links place rest
      else if step = ".." then t.follow last links place.dropLast rest
      else if step.utf8ByteSize > nameLimit then .error .nameTooLong
      else
        match t.node? (place ++ [FileName.text step]) with
        | none => if rest.isEmpty then .ok (place ++ [FileName.text step]) else .error .missing
        | some (.link target) =>
          if rest.isEmpty && !last then .ok (place ++ [FileName.text step])
          else
            match links with
            | 0 => .error .tooManyLinks
            | links + 1 =>
              t.follow last links (if Path.isAbsolute target then [] else place)
                (Path.steps target ++ rest)
        | some _ => t.follow last links (place ++ [FileName.text step]) rest
    | some _ => .error .notDirectory
termination_by (links, steps.length)

/-- The location of a path. No path is empty or contains the character zero. -/
def locate (t : FileTree) (last : Bool) (path : String) : Except PathError Location :=
  if path.isEmpty || path.toList.contains '\x00' then .error .missing
  else
    t.follow last linkLimit (if Path.isAbsolute path then [] else t.workingDirectory)
      (Path.steps path)

/-- What a path leads to, links followed. -/
def find? (t : FileTree) (path : String) : Option FileNode :=
  match t.locate true path with
  | .ok place => t.node? place
  | .error _ => none

/-- Does the path lead to a directory? -/
def isDirectory (t : FileTree) (path : String) : Bool :=
  match t.find? path with
  | some .directory => true
  | _ => false

/-- The bytes of the file that a path leads to. -/
def bytes? (t : FileTree) (path : String) : Option ByteArray :=
  match t.find? path with
  | some (.file content) => some content
  | _ => none

/-- The text of the file that a path leads to, if it is UTF-8. -/
def text? (t : FileTree) (path : String) : Option String :=
  (t.bytes? path).bind String.fromUTF8?

/-- The path of a location, as it is shown. -/
def pathOf (place : Location) : String :=
  "/" ++ "/".intercalate (place.map FileName.display)

/-- Everything below a location, each at its location relative to that, a directory before what it
contains and neighbours in the order of their names. -/
def below (t : FileTree) (place : Location) : List (Location × FileNode) :=
  let inside := t.entries.filterMap fun (l, node) =>
    if place.isPrefixOf l && place.length < l.length then some (l.drop place.length, node) else none
  inside.mergeSort fun a b => Location.le a.1 b.1

end FileTree

end ServiceChains
