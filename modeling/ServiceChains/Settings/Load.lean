import ServiceChains.FileTree
import ServiceChains.Settings.Layers
import ServiceChains.Settings.Toml

/-!
# Loading settings

Settings are read from a file that is named, or from the settings file of the directory that is
analyzed if there is one. The other layers are laid above them, and the result has to be valid.
-/
namespace ServiceChains.Settings

/-- The name of the settings file of a directory. -/
def fileName : String :=
  "meshtrace.toml"

/-- Loads settings, given those of a file. -/
def finish (file : Settings) (env : Environment) (o : Overrides) : Except ConfigError Settings :=
  (file.layered env o).validated

/-- Loads settings with the file at a path, which has to be there. -/
def loadFile (t : FileTree) (path : String) (env : Environment) (o : Overrides) :
    Except ConfigError Settings :=
  match t.text? path with
  | none => .error (.notFound path)
  | some text =>
    match ofToml? text with
    | none => .error (.malformed path "not a settings file")
    | some file => finish file env o

/-- Loads settings for a directory. -/
def load (t : FileTree) (root : String) (env : Environment) (o : Overrides) :
    Except ConfigError Settings :=
  let path := Path.join root fileName
  if (t.find? path).isSome then loadFile t path env o else finish {} env o

end ServiceChains.Settings
