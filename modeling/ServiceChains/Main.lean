import ServiceChains.CommandLine

/-!
# The executable

Reads what stands below the working directory and below the directory to analyze, carries out the
command line, and writes the files that have changed.
-/
namespace ServiceChains.Main

/-- The location of an absolute path. -/
def placeOf (path : String) : Location :=
  (Path.parts path).map FileName.text

/-- What stands at a directory entry and below it. -/
partial def readEntry (place : Location) (entry : IO.FS.DirEntry) :
    IO (List (Location × FileNode)) := do
  let place := place ++ [FileName.text entry.fileName]
  match (← entry.path.symlinkMetadata).type with
  | .dir =>
    let below ← (← entry.path.readDir).toList.mapM (readEntry place)
    return (place, .directory) :: below.flatten
  | .file => return [(place, .file (← IO.FS.readBinFile entry.path))]
  | .symlink => return [(place, .link (← IO.FS.realPath entry.path).toString)]
  | .other => return []

/-- A directory with the directories above it and everything below it; nothing if it cannot be read.
-/
def readDirectory (path : String) : IO (List (Location × FileNode)) := do
  try
    let directory ← IO.FS.realPath path
    let place := placeOf directory.toString
    let entries ← (← directory.readDir).toList.mapM (readEntry place)
    let above := (List.range place.length).map fun n => (place.take (n + 1), FileNode.directory)
    return above ++ entries.flatten
  catch _ => return []

/-- A file at a path, if there is one. -/
def readFile (path : String) : IO (List (Location × FileNode)) := do
  try
    let file ← IO.FS.realPath path
    return [(placeOf file.toString, .file (← IO.FS.readBinFile file))]
  catch _ => return []

/-- The paths of a command line other than that of the directory to analyze. -/
def filePaths (i : CommandLine.Invocation) : List String :=
  let own := match i.command with
    | .interactions _ services output => [services, output]
    | .chains _ interactions output => [interactions, output]
    | .run _ => []
    | .compare _ chains interactions _ => [chains, interactions]
  (i.config :: own).filterMap id

/-- The file tree that an invocation works on. What stands below the working directory is read once.
-/
def readTree (i : CommandLine.Invocation) : IO FileTree := do
  let here := (← IO.currentDir).toString
  let place := placeOf here
  let near ← readDirectory here
  let far := (← readDirectory i.command.root) ++ (← (filePaths i).mapM readFile).flatten
  return { entries := near ++ far.filter (!place.isPrefixOf ·.1), workingDirectory := place }

/-- The settings of the environment. -/
def readEnvironment : IO Environment :=
  Environment.names.filterMapM fun name => do return (← IO.getEnv name).map (name, ·)

/-- Writes a file if its content has changed. -/
def writeChange (old : FileTree) (place : Location) (content : ByteArray) : IO Unit := do
  let path := FileTree.pathOf place
  match old.node? place with
  | some (.file before) => if before == content then return
  | _ => pure ()
  IO.FS.writeBinFile (Artifact.temporaryPath path) content
  IO.FS.rename (Artifact.temporaryPath path) path

/-- Writes what has changed. -/
def writeTree (old new : FileTree) : IO Unit :=
  new.entries.forM fun (place, node) =>
    match node with
    | .directory =>
      if (old.node? place).isSome then pure () else IO.FS.createDirAll (FileTree.pathOf place)
    | .file content => writeChange old place content
    | .link _ => pure ()

end ServiceChains.Main

open ServiceChains in
/-- Carries out a command line. -/
def main (words : List String) : IO UInt32 := do
  let old ← match CommandLine.Invocation.parse words with
    | .ok i => Main.readTree i
    | .error _ => pure {}
  let (ending, new) := CommandLine.execute words (← Main.readEnvironment) old
  Main.writeTree old new
  IO.print ending.output
  for warning in ending.warnings do
    IO.eprintln warning.display
  if let some failure := ending.failure then
    IO.eprintln failure.display
  return ending.status.toUInt32
