import ServiceChains.Artifact
import ServiceChains.Chain.Tracer
import ServiceChains.Comparison
import ServiceChains.Scan.SourceFile
import ServiceChains.Source.Client
import ServiceChains.Source.Route

/-!
# Analyses of directories

The interactions of services come from the sources of the services that are listed. Interaction
chains come from the calls of the interactions and from a model of all services that are found.
Files that cannot be read and routes that cannot be compiled are reported along with the result.
-/
namespace ServiceChains

/-- What is known about the services of a directory. -/
structure ServiceModel where
  catalog : Catalog := {}
  graphs : Table CallGraph := []
  reachable : ReachableIndex := {}

/-- The results of an analysis. -/
structure AnalysisResult where
  interactions : InteractionResults
  chains : ChainForest

/-- What the sources of one service declare. -/
structure ServiceScan where
  endpoints : List Endpoint := []
  graph : CallGraph := {}
  errors : List AnalysisError := []

namespace Analysis

/-- The calls of a source file, unless it is excluded. -/
def fileCalls (s : ScanSettings) (service : String) (f : SourceFile) : Outcome (List CallSite) :=
  let marker := s.effectiveExcludedFileMarker
  if Source.isExcluded marker f.name then ⟨[], []⟩
  else
    match f.read with
    | .ok text => ⟨Source.unitCalls marker service f.name text.toList, []⟩
    | .error e => ⟨[], [.scan e]⟩

/-- The calls of the sources of one service. -/
def serviceCalls (t : FileTree) (s : ScanSettings) (root service : String) :
    Outcome (List CallSite) :=
  let found := t.serviceFiles s root service
  let read := found.data.map (fileCalls s service)
  ⟨read.flatMap (·.data), found.errors ++ read.flatMap (·.errors)⟩

/-- The interactions of given services. -/
def interactionsOf (t : FileTree) (s : Settings) (root : String) (services : List String) :
    Outcome InteractionResults :=
  let found := services.map (serviceCalls t s.scan root)
  ⟨.ofCallSites (found.flatMap (·.data)), found.flatMap (·.errors)⟩

/-- The interactions of the services that are listed. -/
def interactions (t : FileTree) (s : Settings) (root : String) :
    Except AnalysisError (Outcome InteractionResults) :=
  match ServiceList.load t (s.output.analyzedServicesPath root) with
  | .error e => .error (.scan e)
  | .ok services => .ok (interactionsOf t s root services)

/-- Adds a source file to what is known of its service. -/
def addFile (s : ScanSettings) (scan : ServiceScan) (f : SourceFile) : ServiceScan :=
  match f.read with
  | .error e => { scan with errors := scan.errors ++ [.scan e] }
  | .ok text =>
    let cs := text.toList
    let (endpoints, errors) := Source.endpoints s.effectiveEndpointFileSuffix f.name cs
    ⟨scan.endpoints ++ endpoints, scan.graph.addSource cs, scan.errors ++ errors.map .extraction⟩

/-- What the sources of one service declare. -/
def scanService (s : ScanSettings) (files : List SourceFile) : ServiceScan :=
  files.foldl (addFile s) {}

/-- The model of all services below a path. -/
def model (t : FileTree) (s : Settings) (root : String) : Outcome ServiceModel :=
  let found := t.services s.scan root
  let scans := found.data.map fun (name, files) => (name, scanService s.scan files)
  let graphs := scans.map fun (name, scan) => (name, scan.graph)
  ⟨{ catalog := ⟨scans.map fun (name, scan) => (name, scan.endpoints)⟩
     graphs
     reachable := ReachableIndex.resolve graphs },
    found.errors ++ scans.flatMap (·.2.errors)⟩

/-- The interaction chains of calls. -/
def chains (t : FileTree) (s : Settings) (root : String) (sites : List CallSite) :
    Outcome ChainForest :=
  let found := model t s root
  let tracer :=
    Tracer.ofCatalog sites found.data.catalog s.matching.effectivePolicy found.data.reachable
  ⟨tracer.traceAll, found.errors⟩

/-- The interaction chains of the calls in the artifact. -/
def chainsOfArtifact (t : FileTree) (s : Settings) (root : String) :
    Except AnalysisError (Outcome ChainForest) :=
  match Artifact.readInteractions t (s.output.interactionsPath root) with
  | .error e => .error e
  | .ok results => .ok (chains t s root results.interactions)

/-- Interactions and chains together. -/
def run (t : FileTree) (s : Settings) (root : String) :
    Except AnalysisError (Outcome AnalysisResult) :=
  match interactions t s root with
  | .error e => .error e
  | .ok found =>
    let traced := chains t s root found.data.interactions
    .ok ⟨⟨found.data, traced.data⟩, found.errors ++ traced.errors⟩

/-- Writes both artifacts, the interactions first. -/
def writeResults (s : Settings) (root : String) (r : AnalysisResult) (t : FileTree) :
    Except AnalysisError Unit × FileTree :=
  match Artifact.write (s.output.interactionsPath root) r.interactions.toJson t with
  | (.error e, t) => (.error e, t)
  | (.ok (), t) => Artifact.write (s.output.chainsPath root) r.chains.toJson t

/-- Compares the artifacts. There is no report if a sum of counts is too large for a word. -/
def compare (t : FileTree) (s : Settings) (root : String) :
    Except AnalysisError (Option ConsistencyReport) :=
  match Artifact.readChains t (s.output.chainsPath root) with
  | .error e => .error e
  | .ok forest =>
    match Artifact.readInteractions t (s.output.interactionsPath root) with
    | .error e => .error e
    | .ok results => .ok (ConsistencyReport.compare? forest results)

end Analysis

end ServiceChains
