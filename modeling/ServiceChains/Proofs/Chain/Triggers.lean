import ServiceChains.Proofs.Comparison
import ServiceChains.Proofs.Text.LastDot

/-!
# Triggers

The triggers are the methods that make a call and that no resolved call reaches, in the order in
which they first make one. Every step down a chain follows a resolved call, so what stands below a
root is no trigger. The roots are triggers, and no loop leads back to one.
-/
namespace ServiceChains.Tracer

open ChainNode

section

variable (t : Tracer)

/-- The methods that make the calls, one for each call. -/
def callingMethods : List MethodRef :=
  t.sites.map fun entry => (entry.1.source, entry.1.bareMethod)

theorem triggers_eq_firsts :
    t.triggers = (t.callingMethods.filter fun m => m ∉ t.targets).eraseDups :=
  t.triggers_eq

theorem mem_triggers {m : MethodRef} : m ∈ t.triggers ↔ m ∈ t.callingMethods ∧ m ∉ t.targets := by
  rw [triggers_eq_firsts, List.mem_eraseDups, List.mem_filter, decide_eq_true_eq]

/-- Triggers stand in the order in which they first make a call. -/
theorem pairwise_idxOf_triggers :
    t.triggers.Pairwise fun m m' => t.callingMethods.idxOf m < t.callingMethods.idxOf m' := by
  rw [triggers_eq_firsts, ← filter_eraseDups]
  exact (pairwise_idxOf_eraseDups _).filter _

/-- A root of the forest is a trigger. -/
theorem ref_mem_triggers {root : ChainNode} (h : root ∈ t.traceAll) : root.ref ∈ t.triggers := by
  rw [traceAll_eq] at h
  obtain ⟨m, hm, rfl⟩ := List.mem_map.mp h
  have href : ((t.trace m).withCount (rootCount (t.callers.countP fun m' =>
      t.keyOf m' = t.keyOf m))).ref = m := t.trace_ref m
  rw [href]
  exact (t.mem_callers.mp ((firstsBy_sublist _ _).subset hm)).1

/-- Whatever stands below a root is reached by a call. -/
theorem ref_mem_targets {root n : ChainNode} {above : List ChainNode} (h : root ∈ t.traceAll)
    (hocc : root.Occurs above n) (hbelow : above ≠ []) : n.ref ∈ t.targets := by
  cases hocc with
  | root => contradiction
  | call hparent hc =>
    obtain ⟨branch, hbranch, href⟩ := t.leadsTo_of_mem_traceAll h hparent hc
    rw [← href]
    exact t.branches_ref_mem hbranch

end

/-- Triggers are listed once, in the order in which they first appear as callers. They are the
methods that make a call, as the last segment of its caller says, and that no resolved call reaches.
In the forest they are found at the roots only. So nothing below a root stands for a method of a
root, in particular no loop marker does. -/
theorem triggers_stand_at_roots (sites : List CallSite) (catalog : Catalog) (policy : Policy)
    (reachable : ReachableIndex) :
    let t := ofCatalog sites catalog policy reachable
    let callers := sites.map fun site => (site.source, site.bareMethod)
    t.triggers.Nodup ∧
    (t.triggers.Pairwise fun m m' => callers.idxOf m < callers.idxOf m') ∧
    (∀ service method, (service, method) ∈ t.triggers ↔
      (∃ site ∈ sites, site.source = service ∧ IsLastSegment method site.method) ∧
      ∀ site ∈ sites, ∀ e, catalog.match? policy site = some e →
        ¬ (site.target = service ∧ e.method = method)) ∧
    ∀ root ∈ t.traceAll, root.ref ∈ t.triggers ∧
      ∀ above n, root.Occurs above n → above ≠ [] →
        n.ref ∉ t.triggers ∧ ∀ other ∈ t.traceAll, n.ref ≠ other.ref := by
  intro t callers
  have hcallers : t.callingMethods = callers := List.map_map
  have horder : t.triggers.Pairwise fun m m' => callers.idxOf m < callers.idxOf m' := by
    rw [← hcallers]
    exact t.pairwise_idxOf_triggers
  refine ⟨?_, horder, ?_, ?_⟩
  · refine horder.imp ?_
    rintro m m' hlt rfl
    exact lt_irrefl _ hlt
  · intro service method
    rw [mem_triggers, hcallers, mem_targets_ofCatalog]
    apply and_congr
    · simp only [callers, List.mem_map, Prod.mk.injEq, CallSite.bareMethod, afterLastDot_eq_iff]
    · simp only [Prod.mk.injEq, not_exists, not_and]
  · intro root hroot
    refine ⟨t.ref_mem_triggers hroot, ?_⟩
    intro above n hocc hbelow
    have htarget := t.ref_mem_targets hroot hocc hbelow
    have hnot : n.ref ∉ t.triggers := fun htrigger => (t.mem_triggers.mp htrigger).2 htarget
    refine ⟨hnot, ?_⟩
    intro other hother hsame
    exact hnot (hsame ▸ t.ref_mem_triggers hother)

/-- A method that calls into a ring of two others, under its full name and under its bare one. -/
def enteringSites : List CallSite :=
  [⟨"b", "p.B.y", "c", "/z", .get⟩, ⟨"a", "p.A.x", "b", "/y", .get⟩,
    ⟨"c", "p.C.z", "b", "/y", .get⟩, ⟨"a", "x", "b", "/y", .get⟩]

/-- The only trigger makes the second call. Below its root the ring leads back into itself, and not
to the root. -/
theorem triggers_stand_at_roots_ring :
    let t := ofCatalog enteringSites sampleCatalog .first {}
    t.triggers = [("a", "x")] ∧
      ∃ root ∈ t.traceAll, root.ref = ("a", "x") ∧ ∃ above n, root.Occurs above n ∧
        n.isLoop = true ∧ n.ref = ("b", "y") ∧ n.ref ∉ t.triggers ∧ n.ref ≠ root.ref := by
  intro t
  obtain ⟨_, _, _, hroots⟩ := triggers_stand_at_roots enteringSites sampleCatalog .first {}
  let marker : ChainNode :=
    { service := "b", method := "y", endpoint := some "/y", verb := some .get, count := some 1,
      isLoop := true }
  let inner : ChainNode :=
    { service := "c", method := "z", calls := [marker], endpoint := some "/z", verb := some .get,
      count := some 1 }
  let outer : ChainNode :=
    { service := "b", method := "y", calls := [inner], endpoint := some "/y", verb := some .get,
      count := some 2 }
  let root : ChainNode := { service := "a", method := "x", calls := [outer] }
  have hcallers : t.callers = [("a", "x")] := by cbv
  have htrace : t.trace ("a", "x") = root := by cbv
  have hroot : root ∈ t.traceAll := by
    rw [traceAll_of_callers_eq t hcallers, htrace]
    exact List.mem_singleton_self root
  have hocc : root.Occurs [inner, outer, root] marker :=
    .call (.call (.call .root (by simp [root])) (by simp [outer])) (by simp [inner])
  obtain ⟨_, hbelow⟩ := hroots root hroot
  obtain ⟨hnot, hother⟩ := hbelow [inner, outer, root] marker hocc (by simp)
  exact ⟨by decide, root, hroot, rfl, _, marker, hocc, rfl, rfl, hnot, hother root hroot⟩

end ServiceChains.Tracer
