import ServiceChains.Settings
import ServiceChains.Toml.Reader
import ServiceChains.Toml.Writer

/-!
# Settings in TOML

A settings file has a table for each group of settings. Unknown keys are ignored. A group may also
be an array of values in the order of its keys, which may be shorter or longer; a point in time
counts as a table without known keys. Only values that are set are written.
-/
namespace ServiceChains

namespace Toml

/-- The text of a string. -/
def text? : Toml → Option String
  | .string text => some text
  | _ => none

/-- The truth value of a literal. -/
def bool? : Toml → Option Bool
  | .bool b => some b
  | _ => none

/-- The value of a number that is not negative. -/
def count? : Toml → Option UInt64
  | .integer (.ofNat n) => if n < UInt64.size then some (UInt64.ofNat n) else none
  | _ => none

/-- Is the value an array or a table with nothing in it? -/
def isEmptyGroup : Toml → Bool
  | .array items => items.isEmpty
  | .tables elements => elements.isEmpty
  | .table _ entries => entries.isEmpty
  | _ => false

/-- A policy by name, or as a table whose only key is its name and holds nothing. -/
def policy? : Toml → Option Policy
  | .string text => Policy.ofName? text
  | .table _ [(name, value)] => if value.isEmptyGroup then Policy.ofName? name else none
  | _ => none

/-- The values of a group of settings, in the order of its keys. -/
def values? (keys : List String) : Toml → Option (List (Option Toml))
  | .table _ entries => some (keys.map fun key => entries.lookup key)
  | .array items => some (padded items)
  | .tables elements => some (padded (elements.map (.table .header)))
  | .moment _ => some (keys.map fun _ => none)
  | _ => none
where
  /-- As many values as there are keys. -/
  padded (items : List Toml) : List (Option Toml) :=
    (items.map some ++ keys.map fun _ => none).take keys.length

/-- A value that is unset or can be read. -/
def setting? {α : Type} (read : Toml → Option α) : Option Toml → Option (Option α)
  | none => some none
  | some value => (read value).map some

end Toml

namespace ScanSettings

/-- The keys of the settings, in order. -/
def keys : List String :=
  ["source_root", "source_extension", "endpoint_file_suffix", "excluded_file_marker",
    "service_prefix", "service_suffix", "max_file_size", "threads", "respect_gitignore"]

/-- Reads the settings. -/
def ofToml? (value : Toml) : Option ScanSettings := do
  match ← value.values? keys with
  | [root, extension, suffix, marker, first, last, size, threads, ignore] =>
    return {
      sourceRoot := ← Toml.setting? Toml.text? root
      sourceExtension := ← Toml.setting? Toml.text? extension
      endpointFileSuffix := ← Toml.setting? Toml.text? suffix
      excludedFileMarker := ← Toml.setting? Toml.text? marker
      servicePrefix := ← Toml.setting? Toml.text? first
      serviceSuffix := ← Toml.setting? Toml.text? last
      maxFileSize := ← Toml.setting? Toml.count? size
      threads := ← Toml.setting? Toml.count? threads
      respectIgnoreFiles := ← Toml.setting? Toml.bool? ignore }
  | _ => none

end ScanSettings

namespace MatchingSettings

/-- The keys of the settings, in order. -/
def keys : List String :=
  ["policy"]

/-- Reads the settings. -/
def ofToml? (value : Toml) : Option MatchingSettings := do
  match ← value.values? keys with
  | [policy] => return { policy := ← Toml.setting? Toml.policy? policy }
  | _ => none

end MatchingSettings

namespace OutputSettings

/-- The keys of the settings, in order. -/
def keys : List String :=
  ["analyzed_services_file", "interactions_file", "chains_file"]

/-- Reads the settings. -/
def ofToml? (value : Toml) : Option OutputSettings := do
  match ← value.values? keys with
  | [services, interactions, chains] =>
    return {
      analyzedServicesFile := ← Toml.setting? Toml.text? services
      interactionsFile := ← Toml.setting? Toml.text? interactions
      chainsFile := ← Toml.setting? Toml.text? chains }
  | _ => none

end OutputSettings

namespace Settings

/-- Reads a settings file. -/
def ofToml? (text : String) : Option Settings := do
  let entries ← Toml.parse? text
  let group {α : Type} (missing : α) (name : String) (read : Toml → Option α) : Option α :=
    match entries.lookup name with
    | none => some missing
    | some value => read value
  return {
    scan := ← group {} "scan" ScanSettings.ofToml?
    matching := ← group {} "matching" MatchingSettings.ofToml?
    output := ← group {} "output" OutputSettings.ofToml? }

/-- Reads settings that are called `name` and may be used. -/
def parse (name text : String) : Except ConfigError Settings :=
  match ofToml? text with
  | none => .error (.malformed name "not a settings file")
  | some s => s.validated

/-- A line with a key and a value. -/
def line (key value : String) : String :=
  key ++ " = " ++ value ++ "\n"

/-- The line of a string, if it is set. -/
def textLine (key : String) (value : Option String) : String :=
  match value with
  | none => ""
  | some text => line key (Toml.quoted text)

/-- The line of a number, if it is set. Larger numbers than a TOML integer are refused. -/
def countLine? (key : String) (value : Option UInt64) : Option String :=
  match value with
  | none => some ""
  | some n => if n.toNat < Toml.integerBound then some (line key (Text.decimal n.toNat)) else none

/-- The line of a truth value, if it is set. -/
def boolLine (key : String) (value : Option Bool) : String :=
  match value with
  | none => ""
  | some b => line key (if b then "true" else "false")

/-- Settings as a settings file, if their numbers can be written. -/
def toToml? (s : Settings) : Option String := do
  let size ← countLine? "max_file_size" s.scan.maxFileSize
  let threads ← countLine? "threads" s.scan.threads
  return "[scan]\n"
    ++ textLine "source_root" s.scan.sourceRoot
    ++ textLine "source_extension" s.scan.sourceExtension
    ++ textLine "endpoint_file_suffix" s.scan.endpointFileSuffix
    ++ textLine "excluded_file_marker" s.scan.excludedFileMarker
    ++ textLine "service_prefix" s.scan.servicePrefix
    ++ textLine "service_suffix" s.scan.serviceSuffix
    ++ size ++ threads
    ++ boolLine "respect_gitignore" s.scan.respectIgnoreFiles
    ++ "\n[matching]\n"
    ++ textLine "policy" (s.matching.policy.map Policy.name)
    ++ "\n[output]\n"
    ++ textLine "analyzed_services_file" s.output.analyzedServicesFile
    ++ textLine "interactions_file" s.output.interactionsFile
    ++ textLine "chains_file" s.output.chainsFile

/-- Settings as a settings file. -/
def render (s : Settings) : Except ConfigError String :=
  match s.toToml? with
  | some text => .ok text
  | none => .error (.malformed "<serialization>" "out-of-range value")

end Settings

end ServiceChains
