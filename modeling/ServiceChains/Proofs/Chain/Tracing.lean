import Mathlib
import ServiceChains.Chain.Tracer
import ServiceChains.Proofs.Chain.Occurrence

/-!
# Loops in traced chains

Every node of a traced chain is, apart from the data of the call that led to it, the trace of its
own method below the methods of its ancestors. Everything said here about loop markers, about the
methods on a branch and about the depth of a chain follows from this. The recursion needs no more
nested steps than there are methods to meet, and one for the marker.
-/
namespace ServiceChains.Tracer

open ChainNode

variable (t : Tracer)

/-- The methods in scope only bound the recursion: they do not change what is traced. -/
theorem traceFrom_scope_eq (scope : List MethodRef) (covers : ∀ m ∈ t.targets, m ∈ scope)
    (path : List MethodRef) (m : MethodRef) (inScope : m ∈ scope) (scope' : List MethodRef)
    (covers' : ∀ m ∈ t.targets, m ∈ scope') (inScope' : m ∈ scope') :
    t.traceFrom scope covers path m inScope = t.traceFrom scope' covers' path m inScope' := by
  fun_induction t.traceFrom scope covers path m inScope with
  | case1 path m inScope h =>
    rw [traceFrom, dif_pos h]
  | case2 path m inScope h ih =>
    rw [traceFrom, dif_neg h]
    congr 1
    apply List.map_congr_left
    rintro ⟨⟨branch, count⟩, mem⟩ -
    simp only
    rw [ih branch count mem (covers' _ (t.branches_ref_mem mem))]

theorem trace_eq_traceBelow (start : MethodRef) : t.trace start = t.traceBelow [] start := rfl

/-- A node with the data of the branch that led to it. -/
def onBranch (n : ChainNode) (branch : Branch × UInt64) : ChainNode :=
  { n with
    endpoint := some branch.1.endpoint
    verb := some branch.1.verb
    count := some branch.2 }

/-- A child as it stands below the methods on `path`, the last of which has the branch. -/
def follow (path : List MethodRef) (branch : Branch × UInt64) : ChainNode :=
  onBranch (t.traceBelow path branch.1.ref) branch

theorem traceBelow_of_mem {path : List MethodRef} {m : MethodRef} (h : m ∈ path) :
    t.traceBelow path m = loopMarker m := by
  rw [traceBelow, traceFrom, dif_pos h]

theorem traceBelow_of_not_mem {path : List MethodRef} {m : MethodRef} (h : m ∉ path) :
    t.traceBelow path m =
      { service := m.1, method := m.2, calls := (t.branches m).map (t.follow (m :: path)) } := by
  rw [traceBelow, traceFrom, dif_neg h]
  congr 1
  refine Eq.trans ?_ List.attach_map_val
  apply List.map_congr_left
  rintro ⟨⟨branch, count⟩, mem⟩ -
  simp only [follow, onBranch, traceBelow]
  -- The recursion keeps the scope it began with, while `traceBelow` has one of its own per branch.
  rw [t.traceFrom_scope_eq (m :: t.targets) _ (m :: path) branch.ref _ (branch.ref :: t.targets)]

@[simp] theorem traceBelow_ref (path : List MethodRef) (m : MethodRef) :
    (t.traceBelow path m).ref = m := by
  by_cases h : m ∈ path
  · rw [t.traceBelow_of_mem h]
    rfl
  · rw [t.traceBelow_of_not_mem h]
    rfl

theorem traceBelow_isLoop_iff (path : List MethodRef) (m : MethodRef) :
    (t.traceBelow path m).isLoop = true ↔ m ∈ path := by
  by_cases h : m ∈ path
  · simp [t.traceBelow_of_mem h, loopMarker, h]
  · simp [t.traceBelow_of_not_mem h, h]

theorem traceBelow_calls_of_mem {path : List MethodRef} {m : MethodRef} (h : m ∈ path) :
    (t.traceBelow path m).calls = [] := by
  rw [t.traceBelow_of_mem h]
  rfl

theorem traceBelow_calls_of_not_mem {path : List MethodRef} {m : MethodRef} (h : m ∉ path) :
    (t.traceBelow path m).calls = (t.branches m).map (t.follow (m :: path)) := by
  rw [t.traceBelow_of_not_mem h]

theorem bare_traceBelow (path : List MethodRef) (m : MethodRef) :
    (t.traceBelow path m).bare = t.traceBelow path m := by
  by_cases h : m ∈ path
  · rw [t.traceBelow_of_mem h]
    rfl
  · rw [t.traceBelow_of_not_mem h]
    rfl

theorem bare_follow (path : List MethodRef) (branch : Branch × UInt64) :
    (t.follow path branch).bare = t.traceBelow path branch.1.ref := by
  rw [← t.bare_traceBelow path branch.1.ref]
  rfl

theorem trace_ref (start : MethodRef) : (t.trace start).ref = start :=
  t.traceBelow_ref [] start

theorem trace_isLoop (start : MethodRef) : (t.trace start).isLoop = false := by
  rw [trace_eq_traceBelow, t.traceBelow_of_not_mem (by simp)]

theorem trace_count (start : MethodRef) : (t.trace start).count = none := by
  rw [trace_eq_traceBelow, ← t.bare_traceBelow]
  rfl

@[simp] theorem follow_ref (path : List MethodRef) (branch : Branch × UInt64) :
    (t.follow path branch).ref = branch.1.ref :=
  t.traceBelow_ref path branch.1.ref

/-- What is known of a node of the chain of `start` below the ancestors `above`. -/
structure Traced (start : MethodRef) (above : List ChainNode) (n : ChainNode) : Prop where
  bare_eq : n.bare = t.traceBelow (above.map ref) n.ref
  nodup : (above.map ref).Nodup
  followed : ∀ a ∈ above, a.isLoop = false
  known : ∀ a ∈ n :: above, a.ref ∈ start :: t.targets

namespace Traced

variable {t} {start : MethodRef} {above : List ChainNode} {n : ChainNode}

theorem isLoop_iff (h : t.Traced start above n) : n.isLoop = true ↔ n.ref ∈ above.map ref := by
  rw [← t.traceBelow_isLoop_iff (above.map ref) n.ref, ← h.bare_eq, bare_isLoop]

theorem calls_eq (h : t.Traced start above n) (hn : n.ref ∉ above.map ref) :
    n.calls = (t.branches n.ref).map (t.follow (n.ref :: above.map ref)) := by
  rw [← t.traceBelow_calls_of_not_mem hn, ← h.bare_eq, bare_calls]

theorem calls_eq_nil (h : t.Traced start above n) (hn : n.isLoop = true) : n.calls = [] := by
  rw [← t.traceBelow_calls_of_mem (h.isLoop_iff.mp hn), ← h.bare_eq, bare_calls]

/-- One step down a chain: what is known of a node is known of the nodes that it calls. -/
theorem call (h : t.Traced start above n) {c : ChainNode} (hc : c ∈ n.calls) :
    t.Traced start (n :: above) c := by
  have hn : n.ref ∉ above.map ref := by
    intro hmem
    rw [h.calls_eq_nil (h.isLoop_iff.mpr hmem)] at hc
    cases hc
  rw [h.calls_eq hn] at hc
  obtain ⟨branch, hbranch, rfl⟩ := List.mem_map.mp hc
  refine ⟨?_, ?_, ?_, ?_⟩
  · rw [t.bare_follow, t.follow_ref, List.map_cons]
  · exact List.nodup_cons.mpr ⟨hn, h.nodup⟩
  · intro a ha
    rcases List.mem_cons.mp ha with rfl | ha
    · simpa [hn] using h.isLoop_iff
    · exact h.followed a ha
  · intro a ha
    rcases List.mem_cons.mp ha with rfl | ha
    · rw [t.follow_ref]
      exact List.mem_cons_of_mem _ (t.branches_ref_mem hbranch)
    · exact h.known a ha

end Traced

/-- Every node of a traced chain is the trace of its own method below its ancestors. -/
theorem traced_of_occurs {start : MethodRef} {above : List ChainNode} {n : ChainNode}
    (h : (t.trace start).Occurs above n) : t.Traced start above n := by
  induction h with
  | root =>
    refine ⟨?_, by simp, by simp, ?_⟩
    · rw [t.trace_ref, trace_eq_traceBelow, t.bare_traceBelow, List.map_nil]
    · simp [t.trace_ref]
  | call _ hc ih => exact ih.call hc

/-- A chain is no deeper than the number of methods that can occur in it. -/
theorem depth_trace_le (start : MethodRef) :
    (t.trace start).depth ≤ (start :: t.targets).toFinset.card := by
  apply depth_le_of_occurs
  intro above n h
  have ht := t.traced_of_occurs h
  have hsub : (above.map ref).toFinset ⊆ (start :: t.targets).toFinset := by
    intro m hm
    obtain ⟨a, ha, rfl⟩ := List.mem_map.mp (List.mem_toFinset.mp hm)
    exact List.mem_toFinset.mpr (ht.known a (List.mem_cons_of_mem _ ha))
  have hcard := Finset.card_le_card hsub
  rwa [List.toFinset_card_of_nodup ht.nodup, List.length_map] at hcard

theorem follow_mem_calls {path : List MethodRef} {m : MethodRef} (hm : m ∉ path)
    {branch : Branch × UInt64} (hbranch : branch ∈ t.branches m) :
    t.follow (m :: path) branch ∈ (t.traceBelow path m).calls := by
  rw [t.traceBelow_calls_of_not_mem hm]
  exact List.mem_map_of_mem hbranch

/-- A method is deeper than what its branches lead to. -/
theorem depth_traceBelow_lt {path : List MethodRef} {m : MethodRef} (hm : m ∉ path)
    {branch : Branch × UInt64} (hbranch : branch ∈ t.branches m) :
    (t.traceBelow (m :: path) branch.1.ref).depth < (t.traceBelow path m).depth := by
  have hlt := depth_lt_of_mem (t.follow_mem_calls hm hbranch)
  have hdepth : (t.follow (m :: path) branch).depth =
      (t.traceBelow (m :: path) branch.1.ref).depth := by
    rw [depth_eq, depth_eq]
    rfl
  omega

/-- The recursion with at most `fuel` nested steps; there is no answer if that is too few. -/
def traceWithin : Nat → List MethodRef → MethodRef → Option ChainNode
  | 0, _, _ => none
  | fuel + 1, path, m =>
    if path.contains m then some (loopMarker m)
    else
      let calls := (t.branches m).mapM fun branch =>
        (traceWithin fuel (m :: path) branch.1.ref).map (onBranch · branch)
      calls.map fun calls => { service := m.1, method := m.2, calls }

/-- A list whose items all have an answer has the list of these answers. -/
theorem mapM_eq_some_map {α β : Type} {f : α → Option β} {g : α → β} {xs : List α}
    (h : ∀ x ∈ xs, f x = some (g x)) : xs.mapM f = some (xs.map g) := by
  induction xs with
  | nil => rfl
  | cons x xs ih =>
    have hx := h x (by simp)
    have hxs := ih (fun y hy => h y (by simp [hy]))
    rw [List.mapM_cons, hx, hxs]
    rfl

/-- The recursion ends as soon as it may nest deeper than the chain. -/
theorem traceWithin_eq {fuel : Nat} {path : List MethodRef} {m : MethodRef}
    (h : (t.traceBelow path m).depth < fuel) :
    t.traceWithin fuel path m = some (t.traceBelow path m) := by
  induction fuel generalizing path m with
  | zero => omega
  | succ fuel ih =>
    by_cases hm : m ∈ path
    · rw [traceWithin, if_pos (by simpa using hm), t.traceBelow_of_mem hm]
    have hchild : ∀ branch ∈ t.branches m,
        (t.traceWithin fuel (m :: path) branch.1.ref).map (onBranch · branch) =
          some (t.follow (m :: path) branch) := by
      intro branch hbranch
      have hlt := t.depth_traceBelow_lt hm hbranch
      rw [ih (by omega)]
      rfl
    rw [traceWithin, if_neg (by simpa using hm), t.traceBelow_of_not_mem hm]
    simp only [mapM_eq_some_map hchild, Option.map_some]

/-- The methods that resolved calls reach. -/
def resolvedTargets (sites : List CallSite) (catalog : Catalog) (policy : Policy) :
    Finset MethodRef :=
  (sites.filterMap fun site =>
    (catalog.match? policy site).map fun e => (site.target, e.method)).toFinset

theorem toFinset_targets_ofCatalog (sites : List CallSite) (catalog : Catalog) (policy : Policy)
    (reachable : ReachableIndex) :
    (ofCatalog sites catalog policy reachable).targets.toFinset =
      resolvedTargets sites catalog policy := by
  simp only [targets, ofCatalog, resolvedTargets, List.filterMap_map]
  congr 2
  funext site
  simp only [Function.comp_apply, Option.map_map]
  rfl

theorem mem_targets_ofCatalog {sites : List CallSite} {catalog : Catalog} {policy : Policy}
    {reachable : ReachableIndex} {m : MethodRef} :
    m ∈ (ofCatalog sites catalog policy reachable).targets ↔
      ∃ site ∈ sites, ∃ e, catalog.match? policy site = some e ∧ (site.target, e.method) = m := by
  simp only [targets, ofCatalog, List.mem_filterMap, List.mem_map]
  constructor
  · rintro ⟨_, ⟨site, hsite, rfl⟩, hm⟩
    obtain ⟨_, hname, rfl⟩ := Option.map_eq_some_iff.mp hm
    obtain ⟨e, hmatch, rfl⟩ := Option.map_eq_some_iff.mp hname
    exact ⟨site, hsite, e, hmatch, rfl⟩
  · rintro ⟨site, hsite, e, hmatch, rfl⟩
    exact ⟨_, ⟨site, hsite, rfl⟩, by simp [hmatch]⟩

/-- The methods that are followed on a branch are pairwise different. -/
theorem nodup_followed_of_occurs {start : MethodRef} {above : List ChainNode} {n : ChainNode}
    (h : (t.trace start).Occurs above n) :
    (((n :: above).filter fun a => !a.isLoop).map ref).Nodup := by
  have ht := t.traced_of_occurs h
  have habove : (above.filter fun a => !a.isLoop) = above := by
    apply List.filter_eq_self.mpr
    intro a ha
    simp [ht.followed a ha]
  by_cases hn : n.isLoop = true
  · rw [List.filter_cons_of_neg (by simp [hn]), habove]
    exact ht.nodup
  · rw [List.filter_cons_of_pos (by simpa using hn), habove, List.map_cons]
    exact List.nodup_cons.mpr ⟨fun hmem => hn (ht.isLoop_iff.mpr hmem), ht.nodup⟩

/-- Tracing ends, and in the chain that it answers exactly the methods that are their own ancestors
are marked as loops. Nothing stands below a marker, no method is followed twice on a branch, and the
chain is at most as deep as there are methods to meet. -/
theorem trace_marks_loops (sites : List CallSite) (catalog : Catalog) (policy : Policy)
    (reachable : ReachableIndex) (start : MethodRef) :
    let t := ofCatalog sites catalog policy reachable
    let methods := insert start (resolvedTargets sites catalog policy)
    (∀ fuel, methods.card < fuel → t.traceWithin fuel [] start = some (t.trace start)) ∧
    (∀ above n, (t.trace start).Occurs above n →
      (n.isLoop = true ↔ ∃ a ∈ above, a.ref = n.ref) ∧
      (n.isLoop = true → n.calls = []) ∧
      (((n :: above).filter fun a => !a.isLoop).map ref).Nodup) ∧
    (t.trace start).depth ≤ methods.card := by
  intro t methods
  have hdepth : (t.trace start).depth ≤ methods.card := by
    have hle := t.depth_trace_le start
    rwa [List.toFinset_cons, toFinset_targets_ofCatalog] at hle
  refine ⟨?_, ?_, hdepth⟩
  · intro fuel hfuel
    exact t.traceWithin_eq (Nat.lt_of_le_of_lt hdepth hfuel)
  · intro above n h
    have ht := t.traced_of_occurs h
    refine ⟨?_, ht.calls_eq_nil, t.nodup_followed_of_occurs h⟩
    rw [ht.isLoop_iff, List.mem_map]

/-- Two services that call each other. -/
def ringSites : List CallSite :=
  [⟨"a", "p.A.x", "b", "/y", .get⟩, ⟨"b", "p.B.y", "a", "/x", .get⟩]

/-- Three services with one endpoint each. -/
def sampleCatalog : Catalog :=
  ⟨[("a", [⟨"p.A", "x", "x", .get, _, rfl⟩]), ("b", [⟨"p.B", "y", "y", .get, _, rfl⟩]),
    ("c", [⟨"p.C", "z", "z", .get, _, rfl⟩])]⟩

/-- In a ring of two methods the third node is the marker, so the bound on the depth is reached. -/
theorem trace_marks_loops_ring :
    let t := ofCatalog ringSites sampleCatalog .first {}
    let marker : ChainNode :=
      { service := "a", method := "x", endpoint := some "/x", verb := some .get, count := some 1,
        isLoop := true }
    let called : ChainNode :=
      { service := "b", method := "y", calls := [marker], endpoint := some "/y", verb := some .get,
        count := some 1 }
    let root : ChainNode := { service := "a", method := "x", calls := [called] }
    t.trace ("a", "x") = root ∧ root.Occurs [called, root] marker ∧
      (∃ a ∈ [called, root], a.ref = marker.ref) ∧ root.depth = 2 ∧
      root.depth ≤ (insert ("a", "x") (resolvedTargets ringSites sampleCatalog .first)).card := by
  intro t marker called root
  obtain ⟨hends, hnodes, hdepth⟩ := trace_marks_loops ringSites sampleCatalog .first {} ("a", "x")
  have hrun : t.traceWithin 3 [] ("a", "x") = some root := by cbv
  have htrace : t.trace ("a", "x") = root :=
    Option.some.inj ((hends 3 (by decide)).symm.trans hrun)
  have hocc : root.Occurs [called, root] marker :=
    .call (.call .root (by simp [root])) (by simp [called])
  refine ⟨htrace, hocc, ?_, by decide, htrace ▸ hdepth⟩
  exact (hnodes [called, root] marker (htrace.symm ▸ hocc)).1.mp rfl

end ServiceChains.Tracer
