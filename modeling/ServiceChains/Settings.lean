import ServiceChains.Error
import ServiceChains.Matching
import ServiceChains.Path

/-!
# Settings

Every setting may be unset, and then has a default. Settings come in layers: a value of an upper
layer replaces that of the layers below, field by field. A record of settings is valid when its
effective values can be used.
-/
namespace ServiceChains

/-- Which source files are read, and what their names mean. -/
structure ScanSettings where
  sourceRoot : Option String := none
  sourceExtension : Option String := none
  endpointFileSuffix : Option String := none
  excludedFileMarker : Option String := none
  servicePrefix : Option String := none
  serviceSuffix : Option String := none
  maxFileSize : Option UInt64 := none
  threads : Option UInt64 := none
  respectIgnoreFiles : Option Bool := none
  deriving DecidableEq, Repr

/-- How calls are matched with endpoints. -/
structure MatchingSettings where
  policy : Option Policy := none
  deriving DecidableEq, Repr

/-- Where inputs and results are kept. -/
structure OutputSettings where
  analyzedServicesFile : Option String := none
  interactionsFile : Option String := none
  chainsFile : Option String := none
  deriving DecidableEq, Repr

/-- All settings. -/
structure Settings where
  scan : ScanSettings := {}
  matching : MatchingSettings := {}
  output : OutputSettings := {}
  deriving DecidableEq, Repr

namespace ScanSettings

/-- The directory inside a service that holds its sources. -/
def effectiveSourceRoot (s : ScanSettings) : String :=
  s.sourceRoot.getD "src/main/java"

/-- The extension of source files. -/
def effectiveSourceExtension (s : ScanSettings) : String :=
  s.sourceExtension.getD "java"

/-- How the names of files that declare endpoints end. -/
def effectiveEndpointFileSuffix (s : ScanSettings) : String :=
  s.endpointFileSuffix.getD "Controller.java"

/-- What the names of files contain whose calls do not count. -/
def effectiveExcludedFileMarker (s : ScanSettings) : String :=
  s.excludedFileMarker.getD "Test"

/-- How the names of service directories begin. -/
def effectiveServicePrefix (s : ScanSettings) : String :=
  s.servicePrefix.getD "ts-"

/-- How the names of service directories end. -/
def effectiveServiceSuffix (s : ScanSettings) : String :=
  s.serviceSuffix.getD "-service"

/-- Larger source files are not read. -/
def effectiveMaxFileSize (s : ScanSettings) : UInt64 :=
  s.maxFileSize.getD 1048576

/-- How many threads may work at a time; zero leaves that open. -/
def effectiveThreads (s : ScanSettings) : UInt64 :=
  s.threads.getD 0

/-- Do ignore files hide source files? -/
def effectiveRespectIgnoreFiles (s : ScanSettings) : Bool :=
  s.respectIgnoreFiles.getD false

/-- The values of `s` where it has some, else those of `below`. -/
def overlay (s below : ScanSettings) : ScanSettings where
  sourceRoot := s.sourceRoot.or below.sourceRoot
  sourceExtension := s.sourceExtension.or below.sourceExtension
  endpointFileSuffix := s.endpointFileSuffix.or below.endpointFileSuffix
  excludedFileMarker := s.excludedFileMarker.or below.excludedFileMarker
  servicePrefix := s.servicePrefix.or below.servicePrefix
  serviceSuffix := s.serviceSuffix.or below.serviceSuffix
  maxFileSize := s.maxFileSize.or below.maxFileSize
  threads := s.threads.or below.threads
  respectIgnoreFiles := s.respectIgnoreFiles.or below.respectIgnoreFiles

end ScanSettings

namespace MatchingSettings

/-- Which of several fitting endpoints a call reaches. -/
def effectivePolicy (s : MatchingSettings) : Policy :=
  s.policy.getD .first

/-- The values of `s` where it has some, else those of `below`. -/
def overlay (s below : MatchingSettings) : MatchingSettings where
  policy := s.policy.or below.policy

end MatchingSettings

namespace OutputSettings

/-- The list of the services to analyze, seen from the directory that is analyzed. -/
def analyzedServicesPath (s : OutputSettings) (root : String) : String :=
  Path.join root (s.analyzedServicesFile.getD "analyzed_services.txt")

/-- The interaction results, seen from the directory that is analyzed. -/
def interactionsPath (s : OutputSettings) (root : String) : String :=
  Path.join root (s.interactionsFile.getD "interactions_results.json")

/-- The interaction chains, seen from the directory that is analyzed. -/
def chainsPath (s : OutputSettings) (root : String) : String :=
  Path.join root (s.chainsFile.getD "interaction_chain.json")

/-- The values of `s` where it has some, else those of `below`. -/
def overlay (s below : OutputSettings) : OutputSettings where
  analyzedServicesFile := s.analyzedServicesFile.or below.analyzedServicesFile
  interactionsFile := s.interactionsFile.or below.interactionsFile
  chainsFile := s.chainsFile.or below.chainsFile

end OutputSettings

namespace Settings

/-- The values of `s` where it has some, else those of `below`. -/
def overlay (s below : Settings) : Settings where
  scan := s.scan.overlay below.scan
  matching := s.matching.overlay below.matching
  output := s.output.overlay below.output

/-- The first reason why settings cannot be used. -/
def fault? (s : Settings) : Option ConfigError :=
  if (Text.trimSlashes s.scan.effectiveSourceRoot.toList).isEmpty then
    some (.invalid "scan.source_root" "must not be empty")
  else if s.scan.effectiveSourceExtension.toList.all (· == '.') then
    some (.invalid "scan.source_extension" "must not be empty")
  else if s.scan.effectiveMaxFileSize == 0 then
    some (.invalid "scan.max_file_size" "must be greater than 0")
  else if s.scan.effectiveServicePrefix.isEmpty && s.scan.effectiveServiceSuffix.isEmpty then
    some (.invalid "scan.service_prefix" "service prefix and suffix cannot both be empty")
  else none

/-- The settings, if they can be used. -/
def validated (s : Settings) : Except ConfigError Settings :=
  match s.fault? with
  | some e => .error e
  | none => .ok s

end Settings

end ServiceChains
