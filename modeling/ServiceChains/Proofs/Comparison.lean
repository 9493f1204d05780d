import ServiceChains.Comparison
import ServiceChains.Proofs.Chain.Coverage
import ServiceChains.Proofs.Chain.Forest

/-!
# Chains agree with the calls they were traced from

Every edge of a traced forest, at any depth, comes from a call site, so there is a relation between
the services at its ends and no call below a root is missing in the results. Of the calls in the
results exactly those are extra that no trigger makes through the methods it reaches. Roots that are
merged make the same calls, so merging hides none of them.
-/
namespace ServiceChains

open ChainNode

theorem mem_callsWithout {calls others : List ApiCall} {c : ApiCall} :
    c ∈ callsWithout calls others ↔ c ∈ calls ∧ c ∉ others := by
  rw [callsWithout, (List.mergeSort_perm _ _).mem_iff, List.mem_eraseDups, List.mem_filter,
    decide_eq_true_eq]

theorem nodup_callsWithout (calls others : List ApiCall) : (callsWithout calls others).Nodup :=
  (List.mergeSort_perm _ _).nodup_iff.mpr (nodup_eraseDups _)

namespace ChainNode

theorem edgesBelow_eq_flatMap (service : String) (calls : List ChainNode) :
    edgesBelow service calls =
      calls.flatMap fun c => ((service, c.service), c.count.getD 1) :: c.edges := by
  induction calls with
  | nil => rw [edgesBelow, List.flatMap_nil]
  | cons c calls ih => rw [edgesBelow, ih, List.flatMap_cons, List.cons_append]

theorem edges_eq (n : ChainNode) : n.edges = edgesBelow n.service n.calls := by
  cases n
  rw [edges]

/-- The two ends of an edge are a node of the tree and one of its calls. -/
theorem exists_call_of_mem_edges {root : ChainNode} {e : (String × String) × UInt64}
    (h : e ∈ root.edges) :
    ∃ above n c, root.Occurs above n ∧ c ∈ n.calls ∧ e.1 = (n.service, c.service) := by
  induction root using induction_calls with
  | step root ih =>
    rw [edges_eq, edgesBelow_eq_flatMap] at h
    obtain ⟨c, hc, he⟩ := List.mem_flatMap.mp h
    rcases List.mem_cons.mp he with rfl | he
    · exact ⟨[], root, c, .root, hc, rfl⟩
    · obtain ⟨above, n, d, hocc, hd, hends⟩ := ih c hc he
      exact ⟨above ++ [root], n, d, hocc.of_call hc, hd, hends⟩

/-- Roots with the same key make the same calls. -/
theorem exists_call_of_structuralKey_eq {a b c : ChainNode} (h : a.structuralKey = b.structuralKey)
    (hc : c ∈ a.calls) :
    ∃ d ∈ b.calls, ApiCall.ofNode b.service d = ApiCall.ofNode a.service c := by
  rw [structuralKey_eq, structuralKey_eq, keyText_eq_iff, childKeys_eq_map, childKeys_eq_map] at h
  obtain ⟨hperm, _, _, _, _, hservice⟩ := h
  obtain ⟨d, hd, hkey⟩ := List.mem_map.mp (hperm.mem_iff.mp (List.mem_map_of_mem hc))
  rw [childKey_eq, childKey_eq, keyText_eq_iff] at hkey
  obtain ⟨_, hendpoint, hverb, _, _, hd_service⟩ := hkey
  refine ⟨d, hd, ?_⟩
  rw [ApiCall.ofNode, ApiCall.ofNode, hservice, hendpoint, hverb, hd_service]

end ChainNode

/-- Only the ends of edges are counted. -/
theorem exists_edge_of_mem_edgeCounts {forest : ChainForest} {e : (String × String) × UInt64}
    (h : e ∈ edgeCounts forest) : ∃ root ∈ forest, ∃ d ∈ root.edges, d.1 = e.1 := by
  obtain ⟨d, hd, hkey⟩ := exists_of_mem_foldl_bump h
  obtain ⟨root, hroot, hmem⟩ := List.mem_flatMap.mp hd
  exact ⟨root, hroot, d, hmem, hkey⟩

namespace InteractionResults

/-- The services at both ends of a call. -/
def servicesOf (site : CallSite) : String × String :=
  (site.source, site.target)

/-- The number of calls between two services. -/
def callCount (sites : List CallSite) (pair : String × String) : Nat :=
  sites.countP fun site => servicesOf site = pair

theorem callCount_pos {sites : List CallSite} {pair : String × String}
    (h : pair ∈ sites.map servicesOf) : 0 < callCount sites pair := by
  obtain ⟨site, hsite, hpair⟩ := List.mem_map.mp h
  exact List.countP_pos_iff.mpr ⟨site, hsite, decide_eq_true hpair⟩

theorem relations_ofCallSites (sites : List CallSite) :
    (ofCallSites sites).relations =
      (tally (sites.map servicesOf)).map fun e => ⟨e.1.1, e.1.2, e.2⟩ := rfl

/-- There is a relation between two services exactly if there is a call, and it counts the calls. -/
theorem mem_relations_ofCallSites {sites : List CallSite} {r : Relation} :
    r ∈ (ofCallSites sites).relations ↔
      (r.source, r.target) ∈ sites.map servicesOf ∧
        r.count = UInt64.ofNat (callCount sites (r.source, r.target)) := by
  have hcount : ∀ pair, (sites.map servicesOf).countP (fun x => x = pair) =
      callCount sites pair := by
    intro pair
    rw [List.countP_map]
    rfl
  rw [relations_ofCallSites, List.mem_map]
  constructor
  · rintro ⟨⟨pair, count⟩, hmem, rfl⟩
    rw [mem_tally_iff, hcount] at hmem
    exact hmem
  · intro h
    refine ⟨((r.source, r.target), r.count), ?_, rfl⟩
    rw [mem_tally_iff, hcount]
    exact h

theorem relationCount_ofCallSites (sites : List CallSite) (pair : String × String) :
    relationCount (ofCallSites sites).relations pair = UInt64.ofNat (callCount sites pair) := by
  unfold relationCount
  cases hfind : (ofCallSites sites).relations.reverse.find?
      fun r => (r.source, r.target) == pair with
  | some r =>
    have hpair := List.find?_some hfind
    have hr := mem_relations_ofCallSites.mp (List.mem_reverse.mp (List.mem_of_find?_eq_some hfind))
    rw [eq_of_beq hpair] at hr
    exact hr.2
  | none =>
    have hzero : callCount sites pair = 0 := by
      by_contra hne
      have hmem : pair ∈ sites.map servicesOf := by
        obtain ⟨site, hsite, hp⟩ := List.countP_pos_iff.mp (Nat.pos_of_ne_zero hne)
        exact List.mem_map.mpr ⟨site, hsite, of_decide_eq_true hp⟩
      have hr : (⟨pair.1, pair.2, UInt64.ofNat (callCount sites pair)⟩ : Relation) ∈
          (ofCallSites sites).relations := mem_relations_ofCallSites.mpr ⟨hmem, rfl⟩
      have hnot := List.find?_eq_none.mp hfind _ (List.mem_reverse.mpr hr)
      exact hnot (by simp)
    rw [hzero]
    rfl

end InteractionResults

open InteractionResults

/-- The endpoint that a call reaches depends on its target, path and verb only. -/
theorem Catalog.match?_congr (catalog : Catalog) (policy : Policy) {site site' : CallSite}
    (h : ApiCall.ofCallSite site = ApiCall.ofCallSite site') :
    catalog.match? policy site = catalog.match? policy site' := by
  simp only [ApiCall.ofCallSite, ApiCall.mk.injEq] at h
  obtain ⟨_, htarget, hendpoint, hverb⟩ := h
  rw [match?, match?, htarget, hendpoint, hverb]

namespace Tracer

section

variable (t : Tracer)

/-- Every step down a forest follows a branch. -/
theorem leadsTo_of_mem_traceAll {root n c : ChainNode} {above : List ChainNode}
    (hroot : root ∈ t.traceAll) (hocc : root.Occurs above n) (hc : c ∈ n.calls) :
    t.LeadsTo n.ref c.ref := by
  rw [traceAll_eq] at hroot
  obtain ⟨m, _, rfl⟩ := List.mem_map.mp hroot
  obtain ⟨above', n', hocc', href, hcalls, _⟩ := exists_occurs_of_withCount hocc
  rw [← href]
  exact t.leadsTo_of_mem_calls hocc' (hcalls ▸ hc)

/-- What a branch of a method of a service says about its call. -/
def apiCallOf (source : String) (b : Branch) : ApiCall :=
  ⟨source, b.target, b.endpoint, b.verb⟩

theorem calls_trace (m : MethodRef) : (t.trace m).calls = (t.branches m).map (t.follow [m]) := by
  rw [trace_eq_traceBelow, t.traceBelow_calls_of_not_mem List.not_mem_nil]

theorem ofNode_follow (source : String) (path : List MethodRef) (branch : Branch × UInt64) :
    ApiCall.ofNode source (t.follow path branch) = apiCallOf source branch.1 := by
  have hservice := congrArg Prod.fst (t.follow_ref path branch)
  simp only [ref, Branch.ref] at hservice
  rw [ApiCall.ofNode, hservice]
  rfl

/-- The calls below the roots are those on the branches of the triggers. -/
theorem mem_rootCalls_traceAll {c : ApiCall} :
    c ∈ rootCalls t.traceAll ↔
      ∃ m, (c.source, m) ∈ t.triggers ∧
        ∃ branch ∈ t.branches (c.source, m), apiCallOf c.source branch.1 = c := by
  simp only [rootCalls, List.mem_flatMap, List.mem_map]
  constructor
  · rintro ⟨root, hroot, child, hchild, rfl⟩
    rw [traceAll_eq] at hroot
    obtain ⟨m, hm, rfl⟩ := List.mem_map.mp hroot
    have hservice : ((t.trace m).withCount (rootCount (t.callers.countP fun m' =>
        t.keyOf m' = t.keyOf m))).service = m.1 := congrArg Prod.fst (t.trace_ref m)
    have hcalls : child ∈ (t.trace m).calls := hchild
    rw [calls_trace] at hcalls
    obtain ⟨branch, hbranch, rfl⟩ := List.mem_map.mp hcalls
    rw [hservice, ofNode_follow]
    have hcaller := (firstsBy_sublist _ _).subset hm
    exact ⟨m.2, (t.mem_callers.mp hcaller).1, branch, hbranch, rfl⟩
  · rintro ⟨m, hm, branch, hbranch, hcall⟩
    -- The root of the trigger may be merged into one of another trigger with the same key.
    have hchild : t.follow [(c.source, m)] branch ∈ (t.trace (c.source, m)).calls :=
      t.follow_mem_calls List.not_mem_nil hbranch
    have hkey : t.keyOf (c.source, m) ∈ t.traceAll.map structuralKey := by
      rw [map_structuralKey_traceAll, List.mem_eraseDups]
      exact List.mem_map_of_mem (t.mem_callers.mpr ⟨hm, List.ne_nil_of_mem hchild⟩)
    obtain ⟨root, hroot, hsame⟩ := List.mem_map.mp hkey
    obtain ⟨child, hmem, hapi⟩ := exists_call_of_structuralKey_eq hsame.symm hchild
    refine ⟨root, hroot, child, hmem, ?_⟩
    have hservice : (t.trace (c.source, m)).service = c.source :=
      congrArg Prod.fst (t.trace_ref (c.source, m))
    rw [hapi, hservice, ofNode_follow, hcall]

end

section

variable (sites : List CallSite) (catalog : Catalog) (policy : Policy) (reachable : ReachableIndex)

/-- Some trigger makes the call, itself or through a method that it reaches, and the call reaches an
endpoint. -/
def Triggered (c : ApiCall) : Prop :=
  ∃ m, (c.source, m) ∈ (ofCatalog sites catalog policy reachable).triggers ∧
    ∃ site ∈ sites, (catalog.match? policy site).isSome ∧ ApiCall.ofCallSite site = c ∧
      site.bareMethod ∈ reachable.reachableOrSelf c.source m

theorem mem_rootCalls_iff_triggered {c : ApiCall} :
    c ∈ rootCalls (ofCatalog sites catalog policy reachable).traceAll ↔
      Triggered sites catalog policy reachable c := by
  rw [mem_rootCalls_traceAll]
  apply exists_congr
  intro m
  apply and_congr_right
  intro _
  rw [exists_branch_iff sites catalog policy reachable (c.source, m)
    (P := fun b => apiCallOf c.source b = c)]
  constructor
  · rintro ⟨⟨site, e⟩, hcall, hc⟩
    obtain ⟨hsite, hsource, hbare, hmatch⟩ :=
      (mem_resolvedCalls sites catalog policy reachable _).mp hcall
    refine ⟨site, hsite, by rw [hmatch]; rfl, ?_, hbare⟩
    rw [← hc, ApiCall.ofCallSite, hsource]
    rfl
  · rintro ⟨site, hsite, hsome, rfl, hbare⟩
    obtain ⟨e, hmatch⟩ := Option.isSome_iff_exists.mp hsome
    refine ⟨(site, e), ?_, rfl⟩
    exact (mem_resolvedCalls sites catalog policy reachable _).mpr ⟨hsite, rfl, hbare, hmatch⟩

/-- The services of a node and of a call below it are those of a call site. -/
theorem services_mem_of_mem_traceAll {root n c : ChainNode} {above : List ChainNode}
    (hroot : root ∈ (ofCatalog sites catalog policy reachable).traceAll)
    (hocc : root.Occurs above n) (hc : c ∈ n.calls) :
    (n.service, c.service) ∈ sites.map servicesOf := by
  have hstep := leadsTo_of_mem_traceAll _ hroot hocc hc
  rw [leadsTo_ofCatalog] at hstep
  obtain ⟨site, hsite, _, _, hsource, _, htarget, _⟩ := hstep
  exact List.mem_map.mpr ⟨site, hsite, Prod.ext hsource htarget⟩

/-- Mismatches are found between services with a call only, where the relation counts the calls. -/
theorem of_mem_countMismatches {k : CountMismatch}
    (h : k ∈ (ConsistencyReport.compare (ofCatalog sites catalog policy reachable).traceAll
      (ofCallSites sites)).countMismatches) :
    (k.source, k.target) ∈ sites.map servicesOf ∧
      k.resultsCount = UInt64.ofNat (callCount sites (k.source, k.target)) := by
  simp only [ConsistencyReport.compare, ConsistencyReport.ofCounts, List.mem_filterMap,
    (List.mergeSort_perm _ _).mem_iff, List.mem_eraseDups, List.mem_append,
    relationCount_ofCallSites] at h
  obtain ⟨pair, hpair, hk⟩ := h
  split_ifs at hk
  cases hk
  refine ⟨?_, rfl⟩
  rcases hpair with hchain | hrelation
  · obtain ⟨e, he, rfl⟩ := List.mem_map.mp hchain
    obtain ⟨root, hroot, d, hd, hkey⟩ := exists_edge_of_mem_edgeCounts he
    obtain ⟨above, n, c, hocc, hc, hends⟩ := exists_call_of_mem_edges hd
    rw [← hkey, hends]
    exact services_mem_of_mem_traceAll sites catalog policy reachable hroot hocc hc
  · obtain ⟨r, hr, rfl⟩ := List.mem_map.mp hrelation
    exact (mem_relations_ofCallSites.mp hr).1

end

/-- The chains of calls and the results of the same calls: no call below a root is missing in the
results; services with an edge between them, at any depth, have a relation, so that every mismatch
is one with a relation, whose count is positive for any list of calls in memory; and the extra
calls, each listed once, are those that no trigger makes. A call that reaches no endpoint is always
extra. -/
theorem compare_traceAll (sites : List CallSite) (catalog : Catalog) (policy : Policy)
    (reachable : ReachableIndex) :
    let forest := (ofCatalog sites catalog policy reachable).traceAll
    let results := ofCallSites sites
    let report := ConsistencyReport.compare forest results
    report.missingInResults = [] ∧
    (∀ root ∈ forest, ∀ above n, root.Occurs above n → ∀ c ∈ n.calls,
      ∃ r ∈ results.relations, r.source = n.service ∧ r.target = c.service) ∧
    (∀ k ∈ report.countMismatches,
      (∃ r ∈ results.relations, r.source = k.source ∧ r.target = k.target ∧
        r.count = k.resultsCount) ∧
      (sites.length < UInt64.size → 1 ≤ k.resultsCount)) ∧
    report.extraInResults.Nodup ∧
    (∀ c, c ∈ report.extraInResults ↔
      (∃ site ∈ sites, ApiCall.ofCallSite site = c) ∧
        ¬ Triggered sites catalog policy reachable c) ∧
    (∀ site ∈ sites, catalog.match? policy site = none →
      ApiCall.ofCallSite site ∈ report.extraInResults) := by
  intro forest results report
  have hextra : ∀ c, c ∈ report.extraInResults ↔
      (∃ site ∈ sites, ApiCall.ofCallSite site = c) ∧
        ¬ Triggered sites catalog policy reachable c := by
    intro c
    simp only [report, ConsistencyReport.compare, ConsistencyReport.ofCounts, mem_callsWithout,
      List.mem_map]
    rw [mem_rootCalls_iff_triggered]
    rfl
  refine ⟨?_, ?_, ?_, nodup_callsWithout _ _, hextra, ?_⟩
  · apply List.eq_nil_iff_forall_not_mem.mpr
    intro c hc
    obtain ⟨hroot, hnot⟩ := mem_callsWithout.mp hc
    obtain ⟨_, _, site, hsite, _, hcall, _⟩ :=
      (mem_rootCalls_iff_triggered sites catalog policy reachable).mp hroot
    exact hnot (List.mem_map.mpr ⟨site, hsite, hcall⟩)
  · intro root hroot above n hocc c hc
    have hpair := services_mem_of_mem_traceAll sites catalog policy reachable hroot hocc hc
    have hr : ⟨n.service, c.service, UInt64.ofNat (callCount sites (n.service, c.service))⟩ ∈
        results.relations := mem_relations_ofCallSites.mpr ⟨hpair, rfl⟩
    exact ⟨_, hr, rfl, rfl⟩
  · intro k hk
    obtain ⟨hpair, hcount⟩ := of_mem_countMismatches sites catalog policy reachable hk
    constructor
    · exact ⟨⟨k.source, k.target, k.resultsCount⟩,
        mem_relations_ofCallSites.mpr ⟨hpair, hcount⟩, rfl, rfl, rfl⟩
    · intro hlen
      have hpos := callCount_pos hpair
      have hle : callCount sites (k.source, k.target) ≤ sites.length := List.countP_le_length
      have hword : (UInt64.ofNat (callCount sites (k.source, k.target))).toNat =
          callCount sites (k.source, k.target) := UInt64.toNat_ofNat_of_lt' (by omega)
      rw [hcount, UInt64.le_iff_toNat_le, hword]
      exact hpos
  · intro site hsite hnone
    rw [hextra]
    refine ⟨⟨site, hsite, rfl⟩, ?_⟩
    rintro ⟨_, _, site', _, hsome, hsame, _⟩
    rw [catalog.match?_congr policy hsame, hnone] at hsome
    cases hsome

/-- A method with a call that reaches an endpoint and one that reaches none. -/
def halfResolvedSites : List CallSite :=
  [⟨"a", "p.A.x", "c", "/z", .get⟩, ⟨"a", "p.A.x", "c", "/none", .get⟩]

/-- The call that reaches no endpoint is missing in the count of the chains and is extra. -/
theorem compare_traceAll_halfResolved :
    let report := ConsistencyReport.compare
      (ofCatalog halfResolvedSites sampleCatalog .first {}).traceAll
      (ofCallSites halfResolvedSites)
    report.missingInResults = [] ∧ ⟨"a", "c", 1, 2⟩ ∈ report.countMismatches ∧
      (1 : UInt64) ≤ 2 ∧ ⟨"a", "c", "/none", .get⟩ ∈ report.extraInResults := by
  intro report
  obtain ⟨hmissing, _, hmismatch, _, _, hextra⟩ :=
    compare_traceAll halfResolvedSites sampleCatalog .first {}
  have hcallers : (ofCatalog halfResolvedSites sampleCatalog .first {}).callers = [("a", "x")] := by
    cbv
  have hlist : report.countMismatches = [⟨"a", "c", 1, 2⟩] := by
    simp only [report, traceAll_of_callers_eq _ hcallers]
    cbv
  have hk : ⟨"a", "c", 1, 2⟩ ∈ report.countMismatches := by
    simp [hlist]
  refine ⟨hmissing, hk, (hmismatch _ hk).2 (by decide), ?_⟩
  exact hextra ⟨"a", "p.A.x", "c", "/none", .get⟩ (by decide) (by decide)

end Tracer

end ServiceChains
