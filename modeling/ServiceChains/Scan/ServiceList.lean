import ServiceChains.Error
import ServiceChains.FileTree
import ServiceChains.Settings
import ServiceChains.Table
import ServiceChains.Text.Blank

/-!
# Lists of services

The services to analyze are listed in a text file, a directory a line. Which directories are
services when they are looked up instead is a matter of how their names begin and end.
-/
namespace ServiceChains

/-- How the names of service directories begin and end. -/
structure Convention where
  start : String
  ending : String
  deriving DecidableEq, Repr

namespace Convention

/-- The convention of the settings. -/
def ofSettings (s : ScanSettings) : Convention :=
  ⟨s.effectiveServicePrefix, s.effectiveServiceSuffix⟩

/-- Is this the name of a service directory? Beginning and end may overlap. -/
def admits (c : Convention) (name : String) : Bool :=
  c.start.toList.isPrefixOf name.toList && c.ending.toList.isSuffixOf name.toList

end Convention

namespace ServiceList

/-- The service that a line names: the line without blanks around it, one `./` in front and slashes
at the end. -/
def nameOfLine (line : List Char) : String :=
  let line := Text.trim line
  let line := match line with
    | '.' :: '/' :: rest => rest
    | _ => line
  String.ofList (Text.dropEndWhile (· == '/') line)

/-- The services that a text lists, each once. -/
def parse (text : String) : List String :=
  (Path.splitAtChar '\n' text.toList).foldl
    (fun names line =>
      let name := nameOfLine line
      if name.isEmpty then names else insertNew name names)
    []

/-- Reads the list of services from a file. -/
def load (t : FileTree) (path : String) : Except ScanError (List String) :=
  match t.bytes? path with
  | none => .error (.missing path)
  | some content =>
    match String.fromUTF8? content with
    | none => .error (.unreadable path "stream did not contain valid UTF-8")
    | some text => .ok (parse text)

end ServiceList

end ServiceChains
