import ServiceChains.Chain.Node
import ServiceChains.Interactions

/-!
# Comparing chains with interactions

Chains and interaction results that belong together agree in two ways: the counts on the edges
between two services add up to the count of their relation, and the calls directly below the roots
are the recorded interactions. A report lists where they do not. Sums are kept in 64 bits: where
additions are checked, a sum that needs more stops the comparison, and otherwise its last 64 bits are
compared.
-/
namespace ServiceChains

/-- An interaction without the method that makes it. -/
structure ApiCall where
  source : String
  target : String
  endpoint : String
  verb : Verb
  deriving DecidableEq, Repr

/-- Two services between which the counts differ. -/
structure CountMismatch where
  source : String
  target : String
  chainCount : UInt64
  resultsCount : UInt64
  deriving DecidableEq, Repr

/-- Where chains and interaction results differ. -/
structure ConsistencyReport where
  countMismatches : List CountMismatch := []
  missingInResults : List ApiCall := []
  extraInResults : List ApiCall := []
  deriving DecidableEq, Repr

/-- The order of pairs: by the first string, then by the second. -/
def pairLe (a b : String × String) : Bool :=
  decide (a.1 < b.1) || (a.1 == b.1 && decide (a.2 ≤ b.2))

namespace ApiCall

/-- The order of calls: by source, target, path and verb. -/
def le (a b : ApiCall) : Bool :=
  decide (a.source < b.source) || (a.source == b.source &&
    (decide (a.target < b.target) || (a.target == b.target &&
      (decide (a.endpoint < b.endpoint) || (a.endpoint == b.endpoint &&
        decide (a.verb.rank ≤ b.verb.rank))))))

/-- The call of a node below a root of a service. -/
def ofNode (source : String) (n : ChainNode) : ApiCall :=
  ⟨source, n.service, n.endpoint.getD "", n.verb.getD Verb.fallback⟩

def ofCallSite (s : CallSite) : ApiCall :=
  ⟨s.source, s.target, s.endpoint, s.verb⟩

end ApiCall

mutual

/-- The edges of a tree: the services at both ends and the count. -/
def ChainNode.edges : ChainNode → List ((String × String) × UInt64)
  | ⟨service, _, calls, _, _, _, _⟩ => edgesBelow service calls

/-- The edges from a service to several trees and within them. -/
def ChainNode.edgesBelow (service : String) :
    List ChainNode → List ((String × String) × UInt64)
  | [] => []
  | n :: ns => ((service, n.service), n.count.getD 1) :: (edges n ++ edgesBelow service ns)

end

/-- The sum of the counts for each pair of services, of which the last 64 bits are kept. -/
def edgeCounts (forest : ChainForest) : List ((String × String) × UInt64) :=
  (forest.flatMap ChainNode.edges).foldl (fun counts e => bump e.1 e.2 counts) []

/-- The sum of the counts for each pair of services, unless one of them needs more than 64 bits. -/
def edgeCounts? (forest : ChainForest) : Option (List ((String × String) × UInt64)) :=
  (forest.flatMap ChainNode.edges).foldlM (fun counts e => bump? e.1 e.2 counts) []

/-- The calls directly below the roots. -/
def rootCalls (forest : ChainForest) : List ApiCall :=
  forest.flatMap fun root => root.calls.map (ApiCall.ofNode root.service)

/-- The count of the last relation between two services; zero if there is none. -/
def relationCount (relations : List Relation) (pair : String × String) : UInt64 :=
  ((relations.reverse.find? fun r => (r.source, r.target) == pair).map (·.count)).getD 0

/-- The calls of one list that are not in another, sorted and without repeats. -/
def callsWithout (calls others : List ApiCall) : List ApiCall :=
  ((calls.filter (· ∉ others)).eraseDups).mergeSort ApiCall.le

namespace ConsistencyReport

/-- The report on a forest, in which calls were counted, and interaction results. -/
def ofCounts (counts : List ((String × String) × UInt64)) (forest : ChainForest)
    (results : InteractionResults) : ConsistencyReport :=
  let pairs := ((counts.map (·.1) ++ results.relations.map fun r => (r.source, r.target)).eraseDups)
    |>.mergeSort pairLe
  let recorded := results.interactions.map ApiCall.ofCallSite
  { countMismatches := pairs.filterMap fun pair =>
      let chain := (counts.lookup pair).getD 0
      let recorded := relationCount results.relations pair
      if chain = recorded then none else some ⟨pair.1, pair.2, chain, recorded⟩
    missingInResults := callsWithout (rootCalls forest) recorded
    extraInResults := callsWithout recorded (rootCalls forest) }

/-- The report on a forest and interaction results, where additions are not checked. -/
def compare (forest : ChainForest) (results : InteractionResults) : ConsistencyReport :=
  ofCounts (edgeCounts forest) forest results

/-- The report on a forest and interaction results, unless a checked addition stops the comparison. -/
def compare? (forest : ChainForest) (results : InteractionResults) : Option ConsistencyReport :=
  (edgeCounts? forest).map fun counts => ofCounts counts forest results

/-- Does the report list nothing? -/
def isConsistent (r : ConsistencyReport) : Bool :=
  r.countMismatches.isEmpty && r.missingInResults.isEmpty && r.extraInResults.isEmpty

/-- The lines on calls that are only on one side. -/
def callLines (heading whenNone : String) (calls : List ApiCall) : List String :=
  if calls.isEmpty then [whenNone]
  else
    (heading ++ " (" ++ Text.decimal calls.length ++ "):") ::
      calls.map fun c =>
        "  (" ++ c.source ++ ", " ++ c.target ++ ", " ++ c.endpoint ++ ", " ++ c.verb.name ++ ")"

/-- The lines of the report. -/
def lines (r : ConsistencyReport) : List String :=
  ["--- Service Interaction Comparison ---"] ++
    (if r.countMismatches.isEmpty then ["Service interactions are consistent."] else []) ++
    (r.countMismatches.map fun m =>
      "Mismatch for (" ++ m.source ++ ", " ++ m.target ++ "): Chain=" ++
        Text.decimal m.chainCount.toNat ++ ", Results=" ++ Text.decimal m.resultsCount.toNat) ++
    ["", "--- API Interaction Comparison ---"] ++
    callLines "Missing in results" "No missing API interactions in results." r.missingInResults ++
    callLines "Extra in results" "No extra API interactions in results." r.extraInResults

/-- The report as a text. -/
def render (r : ConsistencyReport) : String :=
  String.join (r.lines.map (· ++ "\n"))

def callToJson (c : ApiCall) : Json :=
  .object [Json.field "source" (.text c.source), Json.field "target" (.text c.target),
    Json.field "endpoint" (.text c.endpoint), Json.field "http_method" (.text c.verb.name)]

def mismatchToJson (m : CountMismatch) : Json :=
  .object [Json.field "source" (.text m.source), Json.field "target" (.text m.target),
    Json.field "chain_count" (.word m.chainCount),
    Json.field "results_count" (.word m.resultsCount)]

def toJson (r : ConsistencyReport) : Json :=
  .object [Json.field "count_mismatches" (.array (r.countMismatches.map mismatchToJson)),
    Json.field "missing_in_results" (.array (r.missingInResults.map callToJson)),
    Json.field "extra_in_results" (.array (r.extraInResults.map callToJson))]

end ConsistencyReport

end ServiceChains
