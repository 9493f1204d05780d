import ServiceChains.Proofs.Chain.Tracing
import ServiceChains.Proofs.Sorting
import ServiceChains.Proofs.Tally

/-!
# The calls of a traced method

The calls below a method are those that the methods it reaches make and that reach an endpoint. In a
chain they are grouped by what they have in common: there is one child for each branch, in the order
in which the branches first occur when the calls are listed by the name of the calling method and
then as they were found. Each child counts its calls, and all calls are counted.
-/
namespace ServiceChains.Tracer

open ChainNode

/-- The calls that methods reached by `m` make and that reach an endpoint, in the order in which they
were found, each with its endpoint. -/
def resolvedCalls (sites : List CallSite) (catalog : Catalog) (policy : Policy)
    (reachable : ReachableIndex) (m : MethodRef) : List (CallSite × Endpoint) :=
  (sites.filter fun site =>
    site.source = m.1 ∧ site.bareMethod ∈ reachable.reachableOrSelf m.1 m.2).filterMap fun site =>
      (catalog.match? policy site).map fun e => (site, e)

/-- What a resolved call has in common with the others of its branch. -/
def branchOf (call : CallSite × Endpoint) : Branch :=
  ⟨call.1.target, call.1.endpoint, call.1.verb, call.2.method⟩

section

variable (sites : List CallSite) (catalog : Catalog) (policy : Policy) (reachable : ReachableIndex)
  (m : MethodRef)

theorem mem_resolvedCalls {site : CallSite} {e : Endpoint} :
    (site, e) ∈ resolvedCalls sites catalog policy reachable m ↔
      site ∈ sites ∧ site.source = m.1 ∧
        site.bareMethod ∈ reachable.reachableOrSelf m.1 m.2 ∧
        catalog.match? policy site = some e := by
  simp only [resolvedCalls, List.mem_filterMap, List.mem_filter, decide_eq_true_eq,
    Option.map_eq_some_iff, Prod.mk.injEq]
  constructor
  · rintro ⟨_, ⟨hsite, hsource, hbare⟩, _, hmatch, rfl, rfl⟩
    exact ⟨hsite, hsource, hbare, hmatch⟩
  · rintro ⟨hsite, hsource, hbare, hmatch⟩
    exact ⟨site, ⟨hsite, hsource, hbare⟩, e, hmatch, rfl, rfl⟩

theorem bareMethod_mem_of_mem_resolvedCalls {call : CallSite × Endpoint}
    (h : call ∈ resolvedCalls sites catalog policy reachable m) :
    call.1.bareMethod ∈ reachable.reachableOrSelf m.1 m.2 := by
  simp only [resolvedCalls, List.mem_filterMap, List.mem_filter, decide_eq_true_eq] at h
  obtain ⟨site, ⟨_, _, hbare⟩, hcall⟩ := h
  obtain ⟨e, _, rfl⟩ := Option.map_eq_some_iff.mp hcall
  exact hbare

theorem length_resolvedCalls_le :
    (resolvedCalls sites catalog policy reachable m).length ≤ sites.length := by
  unfold resolvedCalls
  exact (List.length_filterMap_le _ _).trans (List.length_filter_le _ _)

/-- The branches of the calls that one method makes itself. -/
theorem ownBranches_eq_map {name : String} (hname : name ∈ reachable.reachableOrSelf m.1 m.2) :
    (ofCatalog sites catalog policy reachable).ownBranches m.1 name =
      ((resolvedCalls sites catalog policy reachable m).filter
        fun call => call.1.bareMethod = name).map branchOf := by
  simp only [ownBranches, ofCatalog, resolvedCalls]
  induction sites with
  | nil => rfl
  | cons site sites ih =>
    by_cases hsource : site.source = m.1
    · by_cases hbare : site.bareMethod = name
      · have hin : site.bareMethod ∈ reachable.reachableOrSelf m.1 m.2 := hbare ▸ hname
        cases hmatch : catalog.match? policy site with
        | none => simpa [hsource, hbare, hin, hname, hmatch] using ih
        | some e => simpa [hsource, hbare, hin, hname, hmatch, branchOf] using ih
      · by_cases hin : site.bareMethod ∈ reachable.reachableOrSelf m.1 m.2
        · cases hmatch : catalog.match? policy site with
          | none => simpa [hsource, hbare, hin, hmatch] using ih
          | some e => simpa [hsource, hbare, hin, hmatch] using ih
        · simpa [hsource, hbare, hin] using ih
    · simpa [hsource] using ih

/-- The branches that go out from a method are those of its resolved calls, by name of the caller. -/
theorem outgoing_eq_map :
    (ofCatalog sites catalog policy reachable).outgoing m =
      (sortByName (fun call => call.1.bareMethod)
        (resolvedCalls sites catalog policy reachable m)).map branchOf := by
  rw [sortByName_eq_flatMap _ (reachable.nodup_reachableOrSelf m.1 m.2)
    (fun call h => bareMethod_mem_of_mem_resolvedCalls sites catalog policy reachable m h)]
  rw [List.map_flatMap, outgoing]
  apply List.flatMap_congr
  intro name hname
  apply ownBranches_eq_map
  exact (sortStrings_perm _).mem_iff.mp hname

/-- Every branch of a method counts the resolved calls on it. -/
theorem branches_eq_map :
    (ofCatalog sites catalog policy reachable).branches m =
      ((sortByName (fun call => call.1.bareMethod)
        (resolvedCalls sites catalog policy reachable m)).map branchOf).eraseDups.map fun b =>
          (b, UInt64.ofNat ((resolvedCalls sites catalog policy reachable m).countP
            fun call => branchOf call = b)) := by
  rw [branches, outgoing_eq_map, tally_eq]
  apply List.map_congr_left
  intro b _
  rw [List.count_eq_countP, List.countP_map]
  congr 2
  exact (sortByName_perm _ _).countP_eq _

/-- Every branch of a method is that of a resolved call, and every resolved call is on a branch. -/
theorem exists_branch_iff {P : Branch → Prop} :
    (∃ branch ∈ (ofCatalog sites catalog policy reachable).branches m, P branch.1) ↔
      ∃ call ∈ resolvedCalls sites catalog policy reachable m, P (branchOf call) := by
  rw [branches_eq_map]
  simp only [List.mem_map, List.mem_eraseDups, (sortByName_perm _ _).mem_iff]
  constructor
  · rintro ⟨_, ⟨_, ⟨call, hcall, rfl⟩, rfl⟩, hP⟩
    exact ⟨call, hcall, hP⟩
  · rintro ⟨call, hcall, hP⟩
    exact ⟨_, ⟨_, ⟨call, hcall, rfl⟩, rfl⟩, hP⟩

end

/-- What the parent of a node sees of it: its method and the data of the call. -/
def callData (c : ChainNode) : String × String × Option String × Option Verb × Option UInt64 :=
  (c.service, c.method, c.endpoint, c.verb, c.count)

theorem callData_follow (t : Tracer) (path : List MethodRef) (branch : Branch × UInt64) :
    callData (t.follow path branch) =
      (branch.1.target, branch.1.method, some branch.1.endpoint, some branch.1.verb,
        some branch.2) := by
  have href := t.follow_ref path branch
  simp only [ref, Branch.ref, Prod.mk.injEq] at href
  simp only [callData, href.1, href.2]
  rfl

/-- The children of a node that is no loop marker are the branches of its method. -/
theorem calls_of_occurs (t : Tracer) {start : MethodRef} {above : List ChainNode} {n : ChainNode}
    (h : (t.trace start).Occurs above n) (hn : n.isLoop = false) :
    ∃ path, n.calls = (t.branches n.ref).map (t.follow path) := by
  have ht := t.traced_of_occurs h
  have hnot : n.ref ∉ above.map ref := by
    rw [← ht.isLoop_iff, hn]
    simp
  exact ⟨_, ht.calls_eq hnot⟩

/-- Below every node of a chain that is no loop marker there is one child for each branch of its
resolved calls. The children are in the order in which their branches first occur when the calls are
listed by the name of the caller. Each counts the calls on its branch, so that together they count
every resolved call once; counts are words, which is enough for any list of calls in memory. -/
theorem children_count_resolvedCalls (sites : List CallSite) (catalog : Catalog) (policy : Policy)
    (reachable : ReachableIndex) (start : MethodRef) {above : List ChainNode} {n : ChainNode}
    (h : ((ofCatalog sites catalog policy reachable).trace start).Occurs above n)
    (hn : n.isLoop = false) :
    let calls := resolvedCalls sites catalog policy reachable n.ref
    let listed := sortByName (fun call => call.1.bareMethod) calls
    let keys := (listed.map branchOf).eraseDups
    let number := fun b => calls.countP fun call => branchOf call = b
    n.calls.map callData =
      keys.map (fun b =>
        (b.target, b.method, some b.endpoint, some b.verb, some (UInt64.ofNat (number b)))) ∧
    keys.Nodup ∧ (∀ b, b ∈ keys ↔ ∃ call ∈ calls, branchOf call = b) ∧
    (sites.length < UInt64.size →
      (∀ b, (UInt64.ofNat (number b)).toNat = number b) ∧
      (n.calls.map fun c => (c.count.getD 0).toNat).sum = calls.length) := by
  intro calls listed keys number
  obtain ⟨path, hcalls⟩ := calls_of_occurs _ h hn
  have hmem : ∀ b, b ∈ keys ↔ ∃ call ∈ calls, branchOf call = b := by
    intro b
    simp only [keys, List.mem_eraseDups, List.mem_map]
    simp only [listed, (sortByName_perm _ calls).mem_iff]
  refine ⟨?_, nodup_eraseDups _, hmem, ?_⟩
  · rw [hcalls, branches_eq_map, List.map_map, List.map_map]
    apply List.map_congr_left
    intro b _
    exact callData_follow _ path _
  · intro hlen
    have hlt : calls.length < UInt64.size :=
      Nat.lt_of_le_of_lt (length_resolvedCalls_le sites catalog policy reachable n.ref) hlen
    constructor
    · intro b
      exact UInt64.toNat_ofNat_of_lt' (Nat.lt_of_le_of_lt List.countP_le_length hlt)
    · have hout : ((ofCatalog sites catalog policy reachable).outgoing n.ref).length =
          calls.length := by
        rw [outgoing_eq_map, List.length_map, (sortByName_perm _ _).length_eq]
      rw [hcalls, List.map_map, ← hout]
      exact sum_tally (hout ▸ hlt)

/-- Calls of a method and of two helpers that it reaches; one of the calls reaches no endpoint. -/
def helperSites : List CallSite :=
  [⟨"a", "p.A.x", "b", "/y", .get⟩, ⟨"a", "p.A.h", "b", "/none", .get⟩,
    ⟨"a", "p.A.x", "b", "/y", .get⟩, ⟨"a", "p.A.h", "b", "/y", .get⟩,
    ⟨"a", "p.A.g", "c", "/z", .get⟩, ⟨"d", "p.D.x", "b", "/y", .get⟩]

/-- The helpers that the method reaches. -/
def helperIndex : ReachableIndex :=
  ⟨[("a", [("x", ⟨["x", "h", "g"], by decide⟩)])]⟩

/-- The call of the helper that comes first by name stands first, and calls of different helpers on
one branch are counted together. -/
theorem children_count_resolvedCalls_helpers :
    let root := (ofCatalog helperSites sampleCatalog .first helperIndex).trace ("a", "x")
    root.Occurs [] root ∧ root.isLoop = false ∧
      root.calls.map callData =
        [("c", "z", some "/z", some .get, some 1), ("b", "y", some "/y", some .get, some 3)] ∧
      (root.calls.map fun c => (c.count.getD 0).toNat).sum = 4 := by
  intro root
  have href : root.ref = ("a", "x") := trace_ref _ ("a", "x")
  have hloop : root.isLoop = false := trace_isLoop _ ("a", "x")
  obtain ⟨hdata, _, _, hsum⟩ :=
    children_count_resolvedCalls helperSites sampleCatalog .first helperIndex ("a", "x") .root hloop
  have hsorted : sortStrings ["x", "h", "g"] = ["g", "h", "x"] := by cbv
  have hlisted : (sortByName (fun call => call.1.bareMethod)
      (resolvedCalls helperSites sampleCatalog .first helperIndex ("a", "x"))).map branchOf =
        [⟨"c", "/z", .get, "z"⟩, ⟨"b", "/y", .get, "y"⟩, ⟨"b", "/y", .get, "y"⟩,
          ⟨"b", "/y", .get, "y"⟩] := by
    rw [sortByName_eq_flatMap _ (by decide : ["x", "h", "g"].Nodup) (by decide), hsorted]
    decide
  refine ⟨.root, hloop, hdata.trans ?_, (hsum (by decide)).2.trans ?_⟩
  · rw [href, hlisted]
    rfl
  · rw [href]
    decide

end ServiceChains.Tracer
