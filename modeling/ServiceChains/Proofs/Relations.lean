import ServiceChains.Proofs.Comparison

/-!
# Relations count the calls

The relations of a list of call sites are the pairs of services with a call from the first to the
second, in the order in which the pairs first occur, each with the number of its calls. Counts are
words, so they are the numbers of calls wherever the number of all calls is a word; then they add up
to it. Call sites in another order have the same relations in another order.
-/
namespace ServiceChains

/-- The services at both ends of a relation. -/
def Relation.services (r : Relation) : String × String :=
  (r.source, r.target)

namespace InteractionResults

theorem totalRelations_ofCallSites (sites : List CallSite) :
    (ofCallSites sites).totalRelations = UInt64.ofNat (ofCallSites sites).relations.length := rfl

/-- The pairs of the relations are the first occurrences of the pairs of the calls. -/
theorem map_services_relations (sites : List CallSite) :
    (ofCallSites sites).relations.map Relation.services = (sites.map servicesOf).eraseDups := by
  have hpair : (Relation.services ∘ fun e : (String × String) × UInt64 =>
      (⟨e.1.1, e.1.2, e.2⟩ : Relation)) = Prod.fst := rfl
  rw [relations_ofCallSites, List.map_map, hpair, tally_eq, List.map_map]
  exact List.map_id _

theorem length_relations_le (sites : List CallSite) :
    (ofCallSites sites).relations.length ≤ sites.length := by
  rw [← List.length_map Relation.services, map_services_relations, ← List.length_map servicesOf]
  exact length_eraseDups_le _

/-- A relation stands before another if its first call comes before that of the other. -/
theorem pairwise_relations (sites : List CallSite) :
    (ofCallSites sites).relations.Pairwise fun r next =>
      (sites.map servicesOf).idxOf r.services < (sites.map servicesOf).idxOf next.services := by
  have hfirst := pairwise_idxOf_eraseDups (sites.map servicesOf)
  rwa [← map_services_relations, List.pairwise_map] at hfirst

theorem toNat_count_of_mem_relations {sites : List CallSite} (hsize : sites.length < UInt64.size)
    {r : Relation} (hr : r ∈ (ofCallSites sites).relations) :
    r.count.toNat = callCount sites r.services := by
  have hle : callCount sites r.services ≤ sites.length := List.countP_le_length
  have hcount : r.count = UInt64.ofNat (callCount sites r.services) :=
    (mem_relations_ofCallSites.mp hr).2
  rw [hcount]
  exact UInt64.toNat_ofNat_of_lt' (by omega)

/-- Every call is counted in one relation. -/
theorem sum_count_relations {sites : List CallSite} (hsize : sites.length < UInt64.size) :
    ((ofCallSites sites).relations.map fun r => r.count.toNat).sum = sites.length := by
  have hlength : (sites.map servicesOf).length < UInt64.size := by rwa [List.length_map]
  rw [relations_ofCallSites, List.map_map, ← List.length_map servicesOf, ← sum_tally hlength]
  rfl

/-- Relations do not depend on the order of the calls, up to their own order. -/
theorem perm_relations {sites others : List CallSite} (h : sites.Perm others) :
    (ofCallSites sites).relations.Perm (ofCallSites others).relations := by
  rw [relations_ofCallSites, relations_ofCallSites]
  exact (perm_tally (h.map servicesOf)).map _

/-- The relations of call sites have distinct pairs of services: those between which there is a
call, in the order in which they first occur. Each counts its calls, and there are as many as the
total says. If the calls themselves can be counted, no count is cut off, and the counts add up to
the number of calls. The call sites are kept as they are. If they come in another order, so may the
relations, and nothing else changes. -/
theorem relations_count_calls (sites : List CallSite) :
    let results := ofCallSites sites
    (results.relations.map Relation.services).Nodup ∧
    (∀ pair, (∃ r ∈ results.relations, r.services = pair) ↔
      ∃ site ∈ sites, servicesOf site = pair) ∧
    results.relations.Pairwise (fun r next =>
      (sites.map servicesOf).idxOf r.services < (sites.map servicesOf).idxOf next.services) ∧
    (∀ r ∈ results.relations, r.count = UInt64.ofNat (callCount sites r.services)) ∧
    results.totalRelations = UInt64.ofNat results.relations.length ∧
    results.interactions = sites ∧
    (sites.length < UInt64.size →
      (∀ r ∈ results.relations, r.count.toNat = callCount sites r.services) ∧
      results.totalRelations.toNat = results.relations.length ∧
      (results.relations.map fun r => r.count.toNat).sum = sites.length) ∧
    ∀ others, others.Perm sites →
      (ofCallSites others).relations.Perm results.relations ∧
      (ofCallSites others).totalRelations = results.totalRelations ∧
      (ofCallSites others).interactions = others := by
  intro results
  refine ⟨?_, ?_, pairwise_relations sites, fun r hr => (mem_relations_ofCallSites.mp hr).2,
    totalRelations_ofCallSites sites, rfl, ?_, ?_⟩
  · rw [map_services_relations]
    exact nodup_eraseDups _
  · intro pair
    rw [← List.mem_map, map_services_relations, List.mem_eraseDups, List.mem_map]
  · intro hsize
    have hle := length_relations_le sites
    refine ⟨fun r hr => toNat_count_of_mem_relations hsize hr, ?_, sum_count_relations hsize⟩
    rw [totalRelations_ofCallSites]
    exact UInt64.toNat_ofNat_of_lt' (by omega)
  · intro others hperm
    have hrelations := perm_relations hperm
    refine ⟨hrelations, ?_, rfl⟩
    rw [totalRelations_ofCallSites, totalRelations_ofCallSites, hrelations.length_eq]

/-- Calls between two pairs of services in turn. -/
def alternatingSites : List CallSite :=
  [⟨"b", "B.x", "c", "/1", .get⟩, ⟨"a", "A.x", "c", "/2", .get⟩, ⟨"b", "B.y", "c", "/3", .put⟩]

theorem relations_count_calls_alternating :
    (ofCallSites alternatingSites).relations = [⟨"b", "c", 2⟩, ⟨"a", "c", 1⟩] ∧
      alternatingSites.length < UInt64.size ∧ callCount alternatingSites ("b", "c") = 2 ∧
      (ofCallSites alternatingSites).totalRelations.toNat = 2 ∧
      ((ofCallSites alternatingSites).relations.map fun r => r.count.toNat).sum = 3 ∧
      alternatingSites.reverse.Perm alternatingSites ∧
      (ofCallSites alternatingSites.reverse).relations.Perm [⟨"b", "c", 2⟩, ⟨"a", "c", 1⟩] := by
  have hrelations : (ofCallSites alternatingSites).relations =
      [⟨"b", "c", 2⟩, ⟨"a", "c", 1⟩] := by decide
  have hsize : alternatingSites.length < UInt64.size := by decide
  have hturned : alternatingSites.reverse.Perm alternatingSites := List.reverse_perm _
  obtain ⟨-, -, -, -, -, -, hcounted, hreordered⟩ := relations_count_calls alternatingSites
  obtain ⟨hcount, htotal, hsum⟩ := hcounted hsize
  have hperm := (hreordered _ hturned).1
  rw [hrelations] at hcount htotal hperm
  exact ⟨hrelations, hsize, (hcount ⟨"b", "c", 2⟩ (by simp)).symm, htotal, hsum, hturned, hperm⟩

end InteractionResults

end ServiceChains
