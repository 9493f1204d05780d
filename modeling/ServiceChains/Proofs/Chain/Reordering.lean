import ServiceChains.Proofs.Chain.Coverage
import ServiceChains.Proofs.Chain.Forest

/-!
# Call sites in another order

Listing the same call sites in another order changes the order of triggers and siblings, and which
trigger stands for those with the same key. The methods with their branches and counts are the same,
so each method keeps the key of its chain, and the forests have the same keys with the same counts.
-/
namespace ServiceChains.Tracer

open ChainNode

/-- Tracers for the same calls in different orders. -/
structure Reordered (t t' : Tracer) : Prop where
  sites : t.sites.Perm t'.sites
  reachable : t.reachable = t'.reachable

namespace Reordered

variable {t t' : Tracer}

/-- A branch has the same key in both chains if what it leads to calls the same keys. -/
theorem childKey_follow_eq {path : List MethodRef} {branch : Branch × UInt64}
    (hcalls : (childKeys (t.traceBelow path branch.1.ref).calls).Perm
      (childKeys (t'.traceBelow path branch.1.ref).calls)) :
    (t.follow path branch).childKey = (t'.follow path branch).childKey := by
  have hloop : (t.traceBelow path branch.1.ref).isLoop =
      (t'.traceBelow path branch.1.ref).isLoop := by
    rw [Bool.eq_iff_iff, traceBelow_isLoop_iff, traceBelow_isLoop_iff]
  have href : (t.follow path branch).ref = (t'.follow path branch).ref := by
    rw [follow_ref, follow_ref]
  rw [ref, ref, Prod.mk.injEq] at href
  rw [childKey_eq, childKey_eq, keyText_eq_iff]
  exact ⟨hcalls, rfl, rfl, hloop, congrArg some href.2, href.1⟩

variable (h : t.Reordered t')

include h

theorem mem_targets_iff {m : MethodRef} : m ∈ t.targets ↔ m ∈ t'.targets :=
  (h.sites.filterMap _).mem_iff

theorem branches_perm (m : MethodRef) : (t.branches m).Perm (t'.branches m) := by
  apply perm_tally
  unfold outgoing
  rw [h.reachable]
  apply List.Perm.flatMap_left
  intro name _
  exact h.sites.filterMap _

theorem triggers_perm : t.triggers.Perm t'.triggers := by
  rw [triggers_eq, triggers_eq]
  simp only [h.mem_targets_iff]
  apply perm_eraseDups
  exact (h.sites.map _).filter _

theorem childKeys_traceBelow_perm (path : List MethodRef) (m : MethodRef) :
    (childKeys (t.traceBelow path m).calls).Perm (childKeys (t'.traceBelow path m).calls) := by
  -- The keys of siblings are permuted at each level; the key of their caller sorts them.
  induction path, m using t.traceBelow_induction with
  | marked path m hm =>
    rw [traceBelow_calls_of_mem t hm, traceBelow_calls_of_mem t' hm]
  | followed path m hm ih =>
    rw [traceBelow_calls_of_not_mem t hm, traceBelow_calls_of_not_mem t' hm, childKeys_eq_map,
      childKeys_eq_map, List.map_map, List.map_map]
    have hkeys : (t.branches m).map (childKey ∘ t.follow (m :: path)) =
        (t.branches m).map (childKey ∘ t'.follow (m :: path)) := by
      apply List.map_congr_left
      intro branch hbranch
      exact childKey_follow_eq (ih branch hbranch)
    rw [hkeys]
    exact (h.branches_perm m).map _

theorem keyOf_eq : t.keyOf = t'.keyOf := by
  funext m
  have hm : m ∉ ([] : List MethodRef) := List.not_mem_nil
  have hcalls := h.childKeys_traceBelow_perm [] m
  rw [traceBelow_of_not_mem t hm, traceBelow_of_not_mem t' hm] at hcalls
  rw [keyOf, keyOf, trace_eq_traceBelow, trace_eq_traceBelow, traceBelow_of_not_mem t hm,
    traceBelow_of_not_mem t' hm, structuralKey_eq, structuralKey_eq, keyText_eq_iff]
  exact ⟨hcalls, rfl, rfl, rfl, rfl, rfl⟩

theorem callers_perm : t.callers.Perm t'.callers := by
  have hempty : ∀ m, (t.trace m).calls.isEmpty = (t'.trace m).calls.isEmpty := by
    intro m
    rw [Bool.eq_iff_iff, List.isEmpty_iff, List.isEmpty_iff]
    exact calls_eq_nil_iff_of_structuralKey_eq (congrFun h.keyOf_eq m)
  unfold callers
  simp only [hempty]
  exact h.triggers_perm.filter _

theorem callerKeys_perm : (t.callers.map t.keyOf).Perm (t'.callers.map t'.keyOf) := by
  rw [h.keyOf_eq]
  exact h.callers_perm.map _

end Reordered

/-- The keys and counts of a forest come from the keys of the callers. -/
theorem map_key_count_traceAll (t : Tracer) :
    t.traceAll.map (fun root => (root.structuralKey, root.count.getD 1)) =
      (t.callers.map t.keyOf).eraseDups.map fun key =>
        (key, (rootCount ((t.callers.map t.keyOf).count key)).getD 1) := by
  rw [traceAll_eq, ← map_firstsBy, List.map_map, List.map_map]
  apply List.map_congr_left
  intro m _
  simp only [Function.comp_apply, structuralKey_withCount, withCount_count, t.count_map_keyOf]
  rfl

/-- The order of the call sites does not matter for what is found: forests of the same sites in
different orders have the same keys with the same counts, one where there is none. -/
theorem traceAll_perm_of_sites_perm (catalog : Catalog) (policy : Policy) (reachable : ReachableIndex)
    {sites sites' : List CallSite} (h : sites.Perm sites') :
    ((ofCatalog sites catalog policy reachable).traceAll.map
      fun root => (root.structuralKey, root.count.getD 1)).Perm
    ((ofCatalog sites' catalog policy reachable).traceAll.map
      fun root => (root.structuralKey, root.count.getD 1)) := by
  have hsame : (ofCatalog sites catalog policy reachable).Reordered
      (ofCatalog sites' catalog policy reachable) := ⟨h.map _, rfl⟩
  have hkeys := hsame.callerKeys_perm
  rw [map_key_count_traceAll, map_key_count_traceAll]
  simp only [hkeys.count_eq]
  exact (perm_eraseDups hkeys).map _

/-- The chain of a method whose only call is the shared one. -/
def sharedChain (m : MethodRef) : ChainNode :=
  { service := m.1
    method := m.2
    calls := [{ service := "c", method := "z", endpoint := some "/z", verb := some .get,
                count := some 1 }] }

theorem structuralKey_sharedChain_eq_iff (m m' : MethodRef) :
    (sharedChain m).structuralKey = (sharedChain m').structuralKey ↔ m.1 = m'.1 := by
  rw [structuralKey_eq, structuralKey_eq, keyText_eq_iff]
  simp [sharedChain]

/-- If the sites are listed from the third on, the root of the other service comes first, and
another method stands for the three with the same chain. -/
theorem traceAll_perm_of_sites_perm_shared :
    let t := ofCatalog sharedSites sampleCatalog .first {}
    let t' := ofCatalog (sharedSites.rotate 2) sampleCatalog .first {}
    t.traceAll.map (fun root => (root.ref, root.count)) =
      [(("a", "x"), some 3), (("b", "u"), none)] ∧
    t'.traceAll.map (fun root => (root.ref, root.count)) =
      [(("b", "u"), none), (("a", "v"), some 3)] ∧
    (t.traceAll.map fun root => (root.structuralKey, root.count.getD 1)).Perm
      (t'.traceAll.map fun root => (root.structuralKey, root.count.getD 1)) := by
  intro t t'
  have hcallers : t.callers = [("a", "x"), ("b", "u"), ("a", "v"), ("a", "w")] := by cbv
  have hchains : ∀ m ∈ [("a", "x"), ("b", "u"), ("a", "v"), ("a", "w")],
      t.trace m = sharedChain m := by
    simp only [List.forall_mem_cons, List.not_mem_nil, false_imp_iff, implies_true, and_true]
    exact ⟨by cbv, by cbv, by cbv, by cbv⟩
  have hcallers' : t'.callers = [("b", "u"), ("a", "v"), ("a", "w"), ("a", "x")] := by cbv
  have hchains' : ∀ m ∈ [("b", "u"), ("a", "v"), ("a", "w"), ("a", "x")],
      t'.trace m = sharedChain m := by
    simp only [List.forall_mem_cons, List.not_mem_nil, false_imp_iff, implies_true, and_true]
    exact ⟨by cbv, by cbv, by cbv, by cbv⟩
  have hroots : t.traceAll = [(sharedChain ("a", "x")).withCount (rootCount 3),
      (sharedChain ("b", "u")).withCount (rootCount 1)] := by
    rw [traceAll_eq, hcallers]
    simp [firstsBy, keyOf, hchains, structuralKey_sharedChain_eq_iff]
  have hroots' : t'.traceAll = [(sharedChain ("b", "u")).withCount (rootCount 1),
      (sharedChain ("a", "v")).withCount (rootCount 3)] := by
    rw [traceAll_eq, hcallers']
    simp [firstsBy, keyOf, hchains', structuralKey_sharedChain_eq_iff]
  refine ⟨?_, ?_, traceAll_perm_of_sites_perm sampleCatalog .first {}
    (List.rotate_perm sharedSites 2).symm⟩
  · rw [hroots]
    rfl
  · rw [hroots']
    rfl

end ServiceChains.Tracer
