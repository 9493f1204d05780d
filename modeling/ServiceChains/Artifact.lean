import ServiceChains.Chain.Json
import ServiceChains.Error
import ServiceChains.FileTree.Change
import ServiceChains.Interactions
import ServiceChains.Json.Reader

/-!
# Artifacts

Results are kept in JSON files. A file is written under a temporary name first and then renamed, so
that its path never shows a part of it.
-/
namespace ServiceChains.Artifact

/-- The path under which an artifact is written before it is renamed. -/
def temporaryPath (path : String) : String :=
  path ++ ".tmp"

/-- Writes a value, after creating the directories on the way. -/
def write (path : String) (value : Json) (t : FileTree) : Except AnalysisError Unit × FileTree :=
  let failed (reason : String) (t : FileTree) := (.error (.artifactWrite path reason), t)
  match FileTree.makeDirectories (Path.enclosing path) t with
  | (false, t) => failed "cannot create the directory" t
  | (true, t) =>
    match t.write? (temporaryPath path) value.render.toUTF8 with
    | none => failed "cannot write the temporary file" t
    | some t =>
      match t.rename? (temporaryPath path) path with
      | none => failed "cannot rename the temporary file" t
      | some t => (.ok (), t)

/-- Reads the value of an artifact. -/
def readJson (t : FileTree) (path : String) : Except AnalysisError Json :=
  match t.bytes? path with
  | none => .error (.scan (.missing path))
  | some content =>
    match (String.fromUTF8? content).bind Json.parse? with
    | none => .error (.artifactRead path "not a JSON text")
    | some value => .ok value

/-- Reads an artifact of a kind. -/
def read {α : Type} (ofJson? : Nat → Json → Option α) (t : FileTree) (path : String) :
    Except AnalysisError α :=
  match readJson t path with
  | .error e => .error e
  | .ok value =>
    match ofJson? Json.nestingLimit value with
    | none => .error (.artifactRead path "not an artifact of this kind")
    | some data => .ok data

/-- Reads interaction results. -/
def readInteractions (t : FileTree) (path : String) : Except AnalysisError InteractionResults :=
  read InteractionResults.ofJson? t path

/-- Reads interaction chains. -/
def readChains (t : FileTree) (path : String) : Except AnalysisError ChainForest :=
  read ChainForest.ofJson? t path

end ServiceChains.Artifact
