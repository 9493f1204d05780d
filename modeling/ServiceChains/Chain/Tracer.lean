import ServiceChains.Chain.Key
import ServiceChains.Matching
import ServiceChains.Reachability

/-!
# Tracing chains

A tracer knows the call sites, the method that each of them reaches, if any, and the methods that
each method reaches inside its service. From a method it follows the calls of all methods that it
reaches: calls to the same method with the same path and verb are one branch. A method that is
already on the branch is marked as a loop and not followed again.

Chains start at the triggers: methods that make calls and that no call reaches. Chains without a
call are dropped, and chains with the same structural key are merged into the first of them.
-/
namespace ServiceChains

/-- What calls of one branch have in common. -/
structure Branch where
  target : String
  endpoint : String
  verb : Verb
  /-- the method that the calls reach -/
  method : String
  deriving DecidableEq, Repr

namespace Branch

/-- The method at the end of a branch. -/
def ref (b : Branch) : MethodRef :=
  (b.target, b.method)

end Branch

/-- What chains are traced from. -/
structure Tracer where
  /-- the call sites, each with the method that it reaches -/
  sites : List (CallSite × Option String)
  reachable : ReachableIndex

namespace Tracer

/-- A tracer for call sites that reach the endpoints of a catalog. -/
def ofCatalog (sites : List CallSite) (catalog : Catalog) (policy : Policy)
    (reachable : ReachableIndex) : Tracer :=
  ⟨sites.map fun site => (site, (catalog.match? policy site).map (·.method)), reachable⟩

/-- The methods that calls reach. -/
def targets (t : Tracer) : List MethodRef :=
  t.sites.filterMap fun (site, method) => method.map (site.target, ·)

/-- The methods that make calls and that no call reaches, in order of first appearance. -/
def triggers (t : Tracer) : List MethodRef :=
  (t.sites.map fun (site, _) => (site.source, site.bareMethod)).foldl
    (fun found m => if m ∈ t.targets then found else insertNew m found) []

/-- The branches of the calls made by a method of a service itself, one for each call that reaches
something. -/
def ownBranches (t : Tracer) (service method : String) : List Branch :=
  t.sites.filterMap fun (site, reached) =>
    if site.source = service ∧ site.bareMethod = method then
      reached.map fun m => ⟨site.target, site.endpoint, site.verb, m⟩
    else none

/-- The branches of the calls made by all methods that a method reaches, in the order of their
names. -/
def outgoing (t : Tracer) (m : MethodRef) : List Branch :=
  (sortStrings (t.reachable.reachableOrSelf m.1 m.2)).flatMap (t.ownBranches m.1)

/-- The distinct branches of a method with the number of calls on each. -/
def branches (t : Tracer) (m : MethodRef) : List (Branch × UInt64) :=
  tally (t.outgoing m)

theorem ownBranches_ref_mem (t : Tracer) {service method : String} {b : Branch}
    (h : b ∈ t.ownBranches service method) : b.ref ∈ t.targets := by
  simp only [ownBranches, List.mem_filterMap] at h
  obtain ⟨⟨site, reached⟩, hmem, hb⟩ := h
  split at hb
  · obtain ⟨m, hm, rfl⟩ := Option.map_eq_some_iff.mp hb
    simp only [targets, List.mem_filterMap]
    exact ⟨(site, reached), hmem, by simpa [Branch.ref] using hm⟩
  · simp at hb

theorem outgoing_ref_mem (t : Tracer) {m : MethodRef} {b : Branch} (h : b ∈ t.outgoing m) :
    b.ref ∈ t.targets := by
  simp only [outgoing, List.mem_flatMap] at h
  obtain ⟨name, _, hb⟩ := h
  exact t.ownBranches_ref_mem hb

theorem branches_ref_mem (t : Tracer) {m : MethodRef} {e : Branch × UInt64}
    (h : e ∈ t.branches m) : e.1.ref ∈ t.targets :=
  t.outgoing_ref_mem (mem_of_mem_tally h)

/-- Traces the chain below a method. `path` holds the methods on the way to it and `scope` all
methods that can occur. -/
def traceFrom (t : Tracer) (scope : List MethodRef) (covers : ∀ m ∈ t.targets, m ∈ scope)
    (path : List MethodRef) (m : MethodRef) (_inScope : m ∈ scope) : ChainNode :=
  if _h : m ∈ path then ChainNode.loopMarker m
  else
    { service := m.1
      method := m.2
      calls := (t.branches m).attach.map fun ⟨(branch, count), mem⟩ =>
        { t.traceFrom scope covers (m :: path) branch.ref (covers _ (t.branches_ref_mem mem)) with
          endpoint := some branch.endpoint
          verb := some branch.verb
          count := some count } }
termination_by (scope.filter (· ∉ path)).length
decreasing_by
  exact length_filter_lt _inScope (by simp_all) (by simpa using _h) (by simp)

/-- The chain below a method that is reached through the methods on `path`. -/
def traceBelow (t : Tracer) (path : List MethodRef) (m : MethodRef) : ChainNode :=
  t.traceFrom (m :: t.targets) (fun _ h => List.mem_cons_of_mem _ h) path m
    (List.mem_cons_self ..)

/-- The chain that starts at a method. -/
def trace (t : Tracer) (start : MethodRef) : ChainNode :=
  t.traceBelow [] start

end Tracer

namespace ChainForest

/-- Adds a root behind the others, or counts it at the first root with its key. -/
def merge (key : String) (root : ChainNode) (roots : List (String × ChainNode)) :
    List (String × ChainNode) :=
  upsert key root (fun first => { first with count := some (first.count.getD 1 + 1) }) roots

end ChainForest

namespace Tracer

/-- The chains of all triggers that make a call reaching something, without structural repeats. -/
def traceAll (t : Tracer) : ChainForest :=
  ((((t.triggers.map t.trace).filter fun root => !root.calls.isEmpty).foldl
    (fun roots root => ChainForest.merge root.structuralKey root roots) [])).map (·.2)

end Tracer

end ServiceChains
