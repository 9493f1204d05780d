import ServiceChains.FileTree.Ignore
import ServiceChains.Scan.ServiceList

/-!
# Source files

Source files are the regular files with the extension of the settings. They are looked up below a
directory, links not followed; files that are too large are reported instead. A file belongs to the
first service directory above it, provided the directories above it contain the source root of the
settings. Directories whose names are not texts are left out of account for both.
-/
namespace ServiceChains

/-- What was found, and what went wrong meanwhile. -/
structure Outcome (α : Type) where
  data : α
  errors : List AnalysisError := []

namespace Outcome

variable {α : Type}

/-- Did nothing go wrong? -/
def isClean (o : Outcome α) : Bool :=
  o.errors.isEmpty

/-- The number of errors. -/
def errorCount (o : Outcome α) : Nat :=
  o.errors.length

end Outcome

/-- A source file: its location relative to the directory in which it was looked up, whose path is
`base`. -/
structure SourceFile where
  base : String
  relative : Location
  content : ByteArray

namespace SourceFile

/-- The path of the file, as it is shown. -/
def path (f : SourceFile) : String :=
  Path.joinAll f.base (f.relative.map FileName.display)

/-- The name of the file. -/
def fileName (f : SourceFile) : FileName :=
  f.relative.getLast?.getD ((Path.fileName? f.base).getD f.base)

/-- The name of the file, as it is shown. -/
def name (f : SourceFile) : String :=
  f.fileName.display

/-- The directories between `base` and the file, without those whose names are not texts. -/
def directories (f : SourceFile) : List String :=
  f.relative.dropLast.filterMap FileName.text?

/-- The text of the file. -/
def read (f : SourceFile) : Except ScanError String :=
  match String.fromUTF8? f.content with
  | some text => .ok text
  | none => .error (.unreadable f.path "stream did not contain valid UTF-8")

/-- Is the file larger than the settings admit? -/
def isTooLarge (s : ScanSettings) (f : SourceFile) : Bool :=
  decide (s.effectiveMaxFileSize.toNat < f.content.size)

/-- Does the file have the extension of the settings? -/
def isSource (s : ScanSettings) (f : SourceFile) : Bool :=
  f.fileName.extension? ==
    some (String.ofList (s.effectiveSourceExtension.toList.dropWhile (· == '.')))

/-- The error of a file that is too large. -/
def sizeError (s : ScanSettings) (f : SourceFile) : AnalysisError :=
  .scan (.tooLarge f.path f.content.size s.effectiveMaxFileSize.toNat)

end SourceFile

namespace FileTree

/-- The regular files at or below a path, in order. -/
def files (t : FileTree) (hidden : Location → Location → Bool) (path : String) :
    Except PathError (List SourceFile) := do
  let place ← t.locate true path
  match t.node? place with
  | none => .error .missing
  | some (.file content) => return [⟨path, [], content⟩]
  | some _ =>
    return (t.below place).filterMap fun (relative, node) =>
      match node with
      | .file content => if hidden place relative then none else some ⟨path, relative, content⟩
      | _ => none

/-- The source files at or below a path, without those that ignore files hide if the settings say
so. The standard input has none. -/
def sourceFiles (t : FileTree) (s : ScanSettings) (path : String) : Outcome (List SourceFile) :=
  let hidden := if s.effectiveRespectIgnoreFiles then Ignore.hidesBelow t else fun _ _ => false
  if Path.isStandardInput path then ⟨[], []⟩
  else
    match t.files hidden path with
    | .error e =>
      ⟨[], [.scan (.walkFailed path
        (path ++ ": IO error for operation on " ++ path ++ ": " ++ e.message))]⟩
    | .ok files =>
      let sources := files.filter (·.isSource s)
      ⟨sources.filter (!·.isTooLarge s), (sources.filter (·.isTooLarge s)).map (·.sizeError s)⟩

end FileTree

/-- The source root of the settings without slashes at its ends. -/
def ScanSettings.sourceRootPath (s : ScanSettings) : String :=
  Text.withoutOuterSlashes s.effectiveSourceRoot

/-- The names of the directories of the source root. -/
def ScanSettings.sourceRootNames (s : ScanSettings) : List String :=
  ((Path.splitAtChar '/' s.sourceRootPath.toList).map String.ofList).filter (· != "")

/-- The service to which a file belongs. -/
def SourceFile.service? (s : ScanSettings) (f : SourceFile) : Option String :=
  if s.sourceRootNames.isEmpty || !Text.occursIn s.sourceRootNames f.directories then none
  else f.directories.find? (Convention.ofSettings s).admits

/-- The source files of each service, services in the order of their names. -/
abbrev ServiceSources := Table (List SourceFile)

namespace FileTree

/-- The services below a path with their source files. -/
def services (t : FileTree) (s : ScanSettings) (root : String) : Outcome ServiceSources :=
  let found := t.sourceFiles s root
  let names := sortStrings ((found.data.filterMap (·.service? s)).eraseDups)
  ⟨names.map fun name => (name, found.data.filter (·.service? s == some name)), found.errors⟩

/-- The source files of one service directory. -/
def serviceFiles (t : FileTree) (s : ScanSettings) (root service : String) :
    Outcome (List SourceFile) :=
  let path := Path.join (Path.join root service) s.sourceRootPath
  if t.isDirectory path then t.sourceFiles s path else ⟨[], []⟩

end FileTree

end ServiceChains
