import ServiceChains.Proofs.Chain.Coverage
import ServiceChains.Proofs.Chain.Forest
import ServiceChains.Proofs.Scan.SourceFile

/-!
# Interactions survive their artifact

Interaction results are read back from their artifact as they were written, whatever texts and counts
they hold: they nest three levels deep at most. So chains traced from the artifact are those of the
interactions in memory.
-/
namespace ServiceChains

/-- A list is read back where the reader has one level left for it. -/
theorem InteractionResults.listOf?_map {α : Type} {write : α → Json} {read : Nat → Json → Option α}
    {budget : Nat} (h : ∀ x, read budget (write x) = some x) (xs : List α) :
    listOf? (budget + 1) read (.array (xs.map write)) = some xs := by
  have hitems : xs.mapM (read budget ∘ write) = some (xs.map id) :=
    Tracer.mapM_eq_some_map fun x _ => h x
  change (xs.map write).mapM (read budget) = some xs
  rw [List.mapM_map, hitems, List.map_id]

theorem CallSite.ofJson?_toJson (site : CallSite) (budget : Nat) :
    ofJson? (budget + 1) site.toJson = some site := by
  have hvalues : site.toJson.values? fieldNames = some [some (.text site.source),
      some (.text site.method), some (.text site.target), some (.text site.endpoint),
      some (.text site.verb.name)] := rfl
  simp only [ofJson?, hvalues, Json.required?, Json.defaulted?, Option.bind_some, Json.text?_text,
    Json.verb?_name]
  rfl

theorem Relation.ofJson?_toJson (r : Relation) (budget : Nat) :
    ofJson? (budget + 1) r.toJson = some r := by
  have hvalues : r.toJson.values? fieldNames = some [some (.text r.source), some (.text r.target),
      some (.word r.count)] := rfl
  simp only [ofJson?, hvalues, Json.required?, Option.bind_some, Json.text?_text, Json.word?_word]
  rfl

namespace InteractionResults

theorem ofJson?_toJson (r : InteractionResults) (budget : Nat) :
    ofJson? (budget + 3) r.toJson = some r := by
  have hvalues : r.toJson.values? fieldNames = some [some (.word r.totalRelations),
      some (.array (r.relations.map Relation.toJson)),
      some (.array (r.interactions.map CallSite.toJson))] := rfl
  have hrelations := listOf?_map (fun x => x.ofJson?_toJson budget) r.relations
  have hinteractions := listOf?_map (fun x => x.ofJson?_toJson budget) r.interactions
  simp only [ofJson?, hvalues, Json.required?, Option.bind_some, Json.word?_word, hrelations,
    hinteractions]
  rfl

theorem plain_toJson (r : InteractionResults) : r.toJson.Plain := by
  have hrelation (x : Relation) : x.toJson.Plain := by
    apply Json.plain_object
    simp [Json.plainField_field, Json.plain_text, Json.plain_word]
  have hsite (x : CallSite) : x.toJson.Plain := by
    apply Json.plain_object
    simp [Json.plainField_field, Json.plain_text]
  apply Json.plain_object
  simp [Json.plainField_field, Json.plain_word, Json.plain_array_map, hrelation, hsite]

end InteractionResults

/-- Interaction results are read back from their artifact. -/
theorem Artifact.readInteractions_of_bytes? {t : FileTree} {path : String} {r : InteractionResults}
    (h : t.bytes? path = some r.toJson.render.toUTF8) : readInteractions t path = .ok r := by
  rw [readInteractions, read_of_bytes? _ r.plain_toJson h, Json.nestingLimit, r.ofJson?_toJson 124]
  rfl

namespace Analysis

theorem chainsOfArtifact_of_read {t : FileTree} {s : Settings} {root : String}
    {r : InteractionResults}
    (h : Artifact.readInteractions t (s.output.interactionsPath root) = .ok r) :
    chainsOfArtifact t s root = .ok (chains t s root r.interactions) := by
  unfold chainsOfArtifact
  rw [h]

/-- The chains of calls depend on the tree only through the sources of its services. -/
theorem chains_congr {t t' : FileTree} {s : Settings} {root : String}
    (h : t.services s.scan root = t'.services s.scan root) (sites : List CallSite) :
    chains t s root sites = chains t' s root sites := by
  simp only [chains, model, h]

theorem run_eq_ok_iff {t : FileTree} {s : Settings} {root : String}
    {result : Outcome AnalysisResult} :
    run t s root = .ok result ↔ ∃ found, interactions t s root = .ok found ∧
      result = ⟨⟨found.data, (chains t s root found.data.interactions).data⟩,
        found.errors ++ (chains t s root found.data.interactions).errors⟩ := by
  unfold run
  cases interactions t s root with
  | error e => simp
  | ok found => simp [eq_comm]

/-- Interaction results survive their artifact, whatever texts and counts they hold. So every catalog,
policy and index leads to the same chains from the artifact as from the results in memory. Chains
traced from the artifact of a run are the chains of that run, as long as the same sources are found.
-/
theorem interactions_survive_artifact (r : InteractionResults) (tree : FileTree) (path : String)
    (hbytes : tree.bytes? path = some r.toJson.render.toUTF8) :
    Artifact.readInteractions tree path = .ok r ∧
    (∀ catalog policy reachable, ∃ results, Artifact.readInteractions tree path = .ok results ∧
      (Tracer.ofCatalog results.interactions catalog policy reachable).traceAll =
        (Tracer.ofCatalog r.interactions catalog policy reachable).traceAll) ∧
    ∀ s : Settings, ∀ root, s.output.interactionsPath root = path →
      chainsOfArtifact tree s root = .ok (chains tree s root r.interactions) ∧
      ∀ t result, run t s root = .ok result → result.data.interactions = r →
        tree.services s.scan root = t.services s.scan root →
        ∃ found, chainsOfArtifact tree s root = .ok found ∧ found.data = result.data.chains := by
  have hread := Artifact.readInteractions_of_bytes? hbytes
  refine ⟨hread, fun _ _ _ => ⟨r, hread, rfl⟩, ?_⟩
  rintro s root rfl
  have hchains := chainsOfArtifact_of_read hread
  refine ⟨hchains, ?_⟩
  intro t result hrun hresult hsources
  obtain ⟨found, _, rfl⟩ := run_eq_ok_iff.mp hrun
  refine ⟨_, hchains, ?_⟩
  rw [chains_congr hsources, ← hresult]

/-- Texts that have to be escaped, the largest count, and an empty name. -/
def awkwardResults : InteractionResults :=
  { totalRelations := 18446744073709551615
    relations := [⟨"a\"b\\", "\n\t\x01", 18446744073709551615⟩]
    interactions := [⟨"ü", "", "\r\x7f", "/\"x\"/", .patch⟩] }

/-- A method that calls another service. -/
def callerText : String :=
  "class A \x7bpublic void go() " ++
    "\x7brestTemplate.put(getServiceUrl(\"ts-b-service\") + \"/p\", 1);\x7d\x7d"

/-- The method that the call reaches. -/
def handlerText : String :=
  "class B \x7b@PutMapping(\"/p\") public void put() \x7b\x7d\x7d"

/-- Two services, of which the first is listed and calls the second. -/
def projectTree : FileTree where
  entries := [(["analyzed_services.txt"], .file "ts-a-service".toUTF8),
    (["ts-a-service"], .directory), (["ts-a-service", "src"], .directory),
    (["ts-a-service", "src", "A.java"], .file callerText.toUTF8),
    (["ts-b-service"], .directory), (["ts-b-service", "src"], .directory),
    (["ts-b-service", "src", "BController.java"], .file handlerText.toUTF8)]

/-- A short source root, and files of at most a hundred bytes. -/
def projectSettings : Settings where
  scan := { sourceRoot := some "src", maxFileSize := some 100 }

/-- The source of the caller, as it is found from a path. -/
def callerFile (base : String) (above : Location) : SourceFile :=
  ⟨base, above ++ [FileName.text "A.java"], callerText.toUTF8⟩

/-- The source of the handler. -/
def handlerFile : SourceFile :=
  ⟨".", ["ts-b-service", "src", "BController.java"], handlerText.toUTF8⟩

/-- The call from the one to the other. -/
def projectCall : CallSite :=
  ⟨"ts-a-service", "A.go", "ts-b-service", "/p", .put⟩

/-- The endpoint of the handler. -/
def projectEndpoint : Endpoint :=
  ⟨"BController", "put", "p", .put, [.slash, .one 'p', .slash], rfl⟩

def callerGraph : CallGraph :=
  ⟨["go"], [("go", "put"), ("go", "getServiceUrl")]⟩

def handlerGraph : CallGraph :=
  ⟨["put"], []⟩

def projectTracer : Tracer :=
  .ofCatalog [projectCall] ⟨[("ts-a-service", []), ("ts-b-service", [projectEndpoint])]⟩ .first
    (.resolve [("ts-a-service", callerGraph), ("ts-b-service", handlerGraph)])

/-- The chain that begins with the call. -/
def projectChain : ChainNode where
  service := "ts-a-service"
  method := "go"
  calls := [⟨"ts-b-service", "put", [], some "/p", some .put, some 1, false⟩]

/-- What an analysis of the project finds. -/
def projectResult : AnalysisResult :=
  ⟨.ofCallSites [projectCall], [projectChain]⟩

theorem read_callerFile (base : String) (above : Location) :
    (callerFile base above).read = .ok callerText :=
  SourceFile.read_of_content rfl

theorem isWalked_sourceRoot_projectTree :
    projectTree.IsWalked (FileTree.sourceRootOf projectSettings.scan "." "ts-a-service")
      ["ts-a-service", "src"] := by
  have hsteps : Path.steps (FileTree.sourceRootOf projectSettings.scan "." "ts-a-service") =
      [".", "ts-a-service", "src"] := by decide
  refine ⟨?_, rfl, by decide⟩
  rw [FileTree.locate, if_neg (by decide), if_neg (by decide), hsteps, FileTree.follow_here rfl,
    FileTree.follow_down rfl ⟨by decide, by decide, by decide⟩ rfl (by simp),
    FileTree.follow_down rfl ⟨by decide, by decide, by decide⟩ rfl (by simp), FileTree.follow_nil]
  rfl

theorem sourcesBelow_projectTree :
    projectTree.sourcesBelow projectSettings.scan [] =
      [(["ts-a-service", "src", "A.java"].map FileName.text, callerText.toUTF8),
        (["ts-b-service", "src", "BController.java"].map FileName.text, handlerText.toUTF8)] := by
  have hbelow : projectTree.below [] = projectTree.entries :=
    List.mergeSort_of_pairwise (by decide +kernel)
  have hcaller : projectSettings.scan.admitsName "A.java" = true :=
    ScanSettings.admitsName_iff.mpr ⟨by decide, Text.bytes "A", by decide, by decide⟩
  have hhandler : projectSettings.scan.admitsName "BController.java" = true :=
    ScanSettings.admitsName_iff.mpr ⟨by decide, Text.bytes "BController", by decide, by decide⟩
  have hlist : projectSettings.scan.admitsName "analyzed_services.txt" = false := by
    decide +kernel
  rw [FileTree.sourcesBelow, FileTree.filesBelow, hbelow]
  simp [projectTree, FileNode.content?, hcaller, hhandler, hlist]

theorem services_projectTree :
    projectTree.services projectSettings.scan "." =
      ⟨[("ts-a-service", [callerFile "." ["ts-a-service", "src"]]),
        ("ts-b-service", [handlerFile])], []⟩ := by
  have hfound : projectTree.sourceFiles projectSettings.scan "." =
      ⟨[callerFile "." ["ts-a-service", "src"], handlerFile], []⟩ := by
    rw [(FileTree.isWalked_here rfl).sourceFiles_eq rfl, sourcesBelow_projectTree]
    rfl
  have hcaller : (callerFile "." ["ts-a-service", "src"]).service? projectSettings.scan =
      some "ts-a-service" := by decide +kernel
  have hhandler : handlerFile.service? projectSettings.scan = some "ts-b-service" := by
    decide +kernel
  have herased : ["ts-a-service", "ts-b-service"].eraseDups = ["ts-a-service", "ts-b-service"] := by
    decide
  have hsorted : sortStrings ["ts-a-service", "ts-b-service"] =
      ["ts-a-service", "ts-b-service"] := List.mergeSort_of_pairwise (by decide +kernel)
  simp [FileTree.services, hfound, hcaller, hhandler, herased, hsorted]

/-- A scan of one file that is a text collects the routes and the calls of the text. -/
theorem scanService_of_read (s : ScanSettings) {file : SourceFile} {text : String}
    (hread : file.read = .ok text) :
    let found := Source.endpoints s.effectiveEndpointFileSuffix file.name text.toList
    scanService s [file] =
      ⟨found.1, ({} : CallGraph).addSource text.toList, found.2.map .extraction⟩ := by
  intro found
  simp [scanService, addFile, hread, found]

theorem chains_projectTree :
    chains projectTree projectSettings "." [projectCall] = ⟨projectTracer.traceAll, []⟩ := by
  have hcaller : scanService projectSettings.scan [callerFile "." ["ts-a-service", "src"]] =
      ⟨[], callerGraph, []⟩ := by
    have hroutes : Source.endpoints "Controller.java" "A.java" callerText.toList = ([], []) := rfl
    have hgraph : ({} : CallGraph).addSource callerText.toList = callerGraph := by decide +kernel
    have hname : (callerFile "." ["ts-a-service", "src"]).name = "A.java" := rfl
    have hsuffix : projectSettings.scan.effectiveEndpointFileSuffix = "Controller.java" := rfl
    rw [scanService_of_read _ (read_callerFile ..), hname, hsuffix, hroutes, hgraph]
    rfl
  have hhandler : scanService projectSettings.scan [handlerFile] =
      ⟨[projectEndpoint], handlerGraph, []⟩ := by
    have hroutes : Source.endpoints "Controller.java" "BController.java" handlerText.toList =
        ([projectEndpoint], []) := rfl
    have hgraph : ({} : CallGraph).addSource handlerText.toList = handlerGraph := by decide +kernel
    have hname : handlerFile.name = "BController.java" := rfl
    have hsuffix : projectSettings.scan.effectiveEndpointFileSuffix = "Controller.java" := rfl
    have hread : handlerFile.read = .ok handlerText := SourceFile.read_of_content rfl
    rw [scanService_of_read _ hread, hname, hsuffix, hroutes, hgraph]
    rfl
  simp only [chains, model, services_projectTree, List.map_cons, List.map_nil, hcaller, hhandler,
    List.flatMap_cons, List.flatMap_nil, List.append_nil]
  rfl

theorem traceAll_projectTracer : projectTracer.traceAll = [projectChain] := by
  have hroot : projectTracer.trace ("ts-a-service", "go") = projectChain := by
    have hdepth : (projectTracer.trace ("ts-a-service", "go")).depth < 3 := by
      have hle := projectTracer.depth_trace_le ("ts-a-service", "go")
      have hcard : (("ts-a-service", "go") :: projectTracer.targets).toFinset.card = 2 := by decide
      omega
    have hrun : projectTracer.traceWithin 3 [] ("ts-a-service", "go") = some projectChain := by cbv
    exact Option.some.inj ((projectTracer.traceWithin_eq hdepth).symm.trans hrun)
  have hcallers : projectTracer.callers = [("ts-a-service", "go")] := by
    have htriggers : projectTracer.triggers = [("ts-a-service", "go")] := by decide
    simp [Tracer.callers, htriggers, hroot, projectChain]
  rw [projectTracer.traceAll_of_callers_eq hcallers, hroot]

/-- The list of services of the project, in this tree or a larger one. -/
theorem load_project {t : FileTree} (hdir : t.workingDirectory = [])
    (hlist : t.node? ["analyzed_services.txt"] = some (.file "ts-a-service".toUTF8)) :
    ServiceList.load t (projectSettings.output.analyzedServicesPath ".") =
      .ok ["ts-a-service"] := by
  have hname : Path.Names (projectSettings.output.analyzedServicesPath ".")
      "analyzed_services.txt" := by decide
  have hparse : ServiceList.parse "ts-a-service" = ["ts-a-service"] := by decide +kernel
  unfold ServiceList.load
  rw [FileTree.bytes?_name hname hdir hlist]
  simp only [Text.fromUTF8?_toUTF8, hparse]

theorem interactions_projectTree :
    interactions projectTree projectSettings "." = .ok ⟨projectResult.interactions, []⟩ := by
  have hfiles : projectTree.serviceFiles projectSettings.scan "." "ts-a-service" =
      ⟨[callerFile "./ts-a-service/src" []], []⟩ := by
    have hdirectory := (FileTree.isDirectory_iff_exists_isWalked
      isWalked_sourceRoot_projectTree.named).mpr ⟨_, isWalked_sourceRoot_projectTree⟩
    have hlists : projectTree.ListsOnce := by decide
    have hsources := hlists.sourcesBelow_append projectSettings.scan [] ["ts-a-service", "src"]
    rw [sourcesBelow_projectTree, List.nil_append] at hsources
    rw [FileTree.serviceFiles_eq, if_pos hdirectory,
      isWalked_sourceRoot_projectTree.sourceFiles_eq rfl, hsources]
    rfl
  have hcalls : serviceCalls projectTree projectSettings.scan "." "ts-a-service" =
      ⟨[projectCall], []⟩ := by
    have hunit : Source.unitCalls "Test" "ts-a-service" "A.java" callerText.toList =
        [projectCall] := by decide +kernel
    have hfile : fileCalls projectSettings.scan "ts-a-service"
        (callerFile "./ts-a-service/src" []) = ⟨[projectCall], []⟩ := by
      have hname : (callerFile "./ts-a-service/src" []).name = "A.java" := rfl
      have hmarker : projectSettings.scan.effectiveExcludedFileMarker = "Test" := rfl
      have hincluded : Source.isExcluded "Test" "A.java" = false := by decide +kernel
      simp only [fileCalls, read_callerFile, hname, hmarker, hincluded, hunit, Bool.false_eq_true,
        ↓reduceIte]
    rw [serviceCalls, hfiles]
    simp [hfile]
  unfold interactions
  rw [load_project rfl rfl]
  simp only [interactionsOf, List.map_cons, List.map_nil, hcalls]
  rfl

theorem run_projectTree :
    run projectTree projectSettings "." = .ok ⟨projectResult, []⟩ := by
  refine run_eq_ok_iff.mpr ⟨_, interactions_projectTree, ?_⟩
  have hsites : projectResult.interactions.interactions = [projectCall] := rfl
  rw [hsites, chains_projectTree, traceAll_projectTracer]
  rfl

/-- The project with a file for its interactions. -/
def projectWith (content : ByteArray) : FileTree where
  entries := projectTree.entries ++
    [([FileName.text "interactions_results.json"], FileNode.file content)]

theorem services_projectWith (content : ByteArray) :
    (projectWith content).services projectSettings.scan "." =
      projectTree.services projectSettings.scan "." := by
  have hlists : (projectWith content).ListsOnce :=
    (by decide : (projectWith .empty).ListsOnce)
  have hname : projectSettings.scan.admitsName "interactions_results.json" = false := by
    decide +kernel
  let isArtifact (f : Location × ByteArray) : Bool :=
    f.1 == [FileName.text "interactions_results.json"]
  have hwithout : (projectWith content).withoutFiles isArtifact = projectTree := rfl
  rw [← hwithout, hlists.services_withoutFiles (FileTree.isWalked_here rfl) rfl]
  rintro ⟨l, other⟩ hartifact
  rw [beq_iff_eq.mp hartifact]
  exact hname

/-- Awkward results are read back; and chains traced from the artifact of a run are those of the run.
-/
theorem interactions_survive_artifact_awkward :
    (∃ tree, Artifact.write "interactions_results.json" awkwardResults.toJson {} = (.ok (), tree) ∧
      Artifact.readInteractions tree "interactions_results.json" = .ok awkwardResults) ∧
    ∃ tree found, run projectTree projectSettings "." = .ok ⟨projectResult, []⟩ ∧
      Artifact.write (projectSettings.output.interactionsPath ".") projectResult.interactions.toJson
        projectTree = (.ok (), tree) ∧
      chainsOfArtifact tree projectSettings "." = .ok found ∧ found.data = [projectChain] := by
  constructor
  · have hname : Path.Names "interactions_results.json" "interactions_results.json" := by decide
    have htemporary : Path.Names (Artifact.temporaryPath "interactions_results.json")
        "interactions_results.json.tmp" := by decide
    obtain ⟨tree, hwrite, hbytes⟩ :=
      Artifact.exists_write (t := {}) hname htemporary (by decide) rfl rfl rfl awkwardResults.toJson
    exact ⟨tree, hwrite, (interactions_survive_artifact awkwardResults tree _ hbytes).1⟩
  · let path := projectSettings.output.interactionsPath "."
    let content := projectResult.interactions.toJson.render.toUTF8
    have hname : Path.Names path "interactions_results.json" := by decide
    have htemporary : Path.Names (Artifact.temporaryPath path)
        "interactions_results.json.tmp" := by decide
    have hwrite : Artifact.write path projectResult.interactions.toJson projectTree =
        (.ok (), projectWith content) :=
      Artifact.write_name (t := projectTree) hname htemporary (by decide) rfl rfl rfl
        projectResult.interactions.toJson
    have hbytes : (projectWith content).bytes? path = some content :=
      FileTree.bytes?_name hname rfl rfl
    obtain ⟨found, hchains, hsame⟩ := ((interactions_survive_artifact _ _ path hbytes).2.2
      projectSettings "." rfl).2 projectTree _ run_projectTree rfl (services_projectWith content)
    exact ⟨_, found, run_projectTree, hwrite, hchains, hsame⟩

end Analysis

end ServiceChains
