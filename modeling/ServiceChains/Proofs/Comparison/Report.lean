import ServiceChains.Analysis
import ServiceChains.Proofs.Chain.Artifact
import ServiceChains.Proofs.Comparison.Counts
import ServiceChains.Proofs.Interactions

/-!
# What a report lists

A report lists the pairs of services with different counts, and the calls that are found on one side
only, each in strictly increasing order and once. An order and its items determine a list, so the
report does not depend on the order of trees, siblings and interactions. Counts are compared by their
last 64 bits: no pair is listed without a difference, but one can be missing where a sum has more.
Where additions are checked, there is no report then.
-/
namespace ServiceChains

open ChainForest

theorem pairLe_iff (a b : String × String) : pairLe a b = true ↔ toLex a ≤ toLex b := by
  simp [pairLe, Prod.Lex.toLex_le_toLex]

namespace ApiCall

/-- What calls are ordered by: source, target, path and verb. -/
def position (c : ApiCall) : String ×ₗ String ×ₗ String ×ₗ Nat :=
  toLex (c.source, toLex (c.target, toLex (c.endpoint, c.verb.rank)))

theorem le_iff_position_le (a b : ApiCall) : a.le b = true ↔ a.position ≤ b.position := by
  simp [le, position, Prod.Lex.toLex_le_toLex]

theorem rank_injective : Function.Injective Verb.rank := by
  intro v w h
  cases v <;> cases w <;> first | rfl | cases h

theorem position_injective : Function.Injective position := by
  intro a b h
  cases a
  cases b
  simp only [position, EmbeddingLike.apply_eq_iff_eq, Prod.mk.injEq] at h
  obtain ⟨rfl, rfl, rfl, hrank⟩ := h
  rw [rank_injective hrank]

end ApiCall

theorem pairwise_callsWithout (calls others : List ApiCall) :
    (callsWithout calls others).Pairwise fun a b => a.position < b.position :=
  pairwise_lt_mergeSort ApiCall.position_injective ApiCall.le_iff_position_le (nodup_eraseDups _)

/-- What stands in a list of calls without others depends on which calls there are only. -/
theorem callsWithout_congr {calls calls' others others' : List ApiCall}
    (h : ∀ c, c ∈ calls ↔ c ∈ calls') (hothers : ∀ c, c ∈ others ↔ c ∈ others') :
    callsWithout calls others = callsWithout calls' others' := by
  apply eq_of_pairwise_lt (pairwise_callsWithout calls others) (pairwise_callsWithout calls' others')
  intro c
  rw [mem_callsWithout, mem_callsWithout, h, hothers]

theorem mem_rootCalls {forest : ChainForest} {c : ApiCall} :
    c ∈ rootCalls forest ↔
      ∃ root ∈ forest, ∃ n ∈ root.calls, ApiCall.ofNode root.service n = c := by
  simp [rootCalls]

namespace CountMismatch

/-- The services between which the counts differ. -/
def services (k : CountMismatch) : String × String :=
  (k.source, k.target)

end CountMismatch

namespace InteractionResults

/-- The count of the last relation that is listed between two services; zero if there is none. -/
def lastCount (r : InteractionResults) (pair : String × String) : Nat :=
  match (r.relations.filter fun r => (r.source, r.target) = pair).getLast? with
  | some r => r.count.toNat
  | none => 0

theorem toNat_relationCount (r : InteractionResults) (pair : String × String) :
    (relationCount r.relations pair).toNat = r.lastCount pair := by
  rw [relationCount, lastCount, List.getLast?_filter]
  simp only [beq_eq_decide]
  cases r.relations.reverse.find? fun r => decide ((r.source, r.target) = pair) <;> rfl

theorem lastCount_lt (r : InteractionResults) (pair : String × String) :
    r.lastCount pair < UInt64.size := by
  rw [← toNat_relationCount]
  exact UInt64.toNat_lt_size _

end InteractionResults

/-- Services without an edge between them have the count zero. -/
theorem ofNat_callCount_eq_zero {forest : ChainForest} {pair : String × String}
    (h : pair ∉ (edgeCounts forest).map (·.1)) : UInt64.ofNat (forest.callCount pair) = 0 := by
  have hnone : (edgeCounts forest).lookup pair = none := by
    rw [List.lookup_eq_none_iff]
    intro e he
    rw [bne_iff_ne]
    rintro rfl
    exact h (List.mem_map_of_mem he)
  rw [← getD_lookup_edgeCounts, hnone, Option.getD_none]

/-- Services without a relation have the count zero. -/
theorem relationCount_eq_zero {relations : List Relation} {pair : String × String}
    (h : pair ∉ relations.map fun r => (r.source, r.target)) : relationCount relations pair = 0 := by
  have hnone : (relations.reverse.find? fun r => (r.source, r.target) == pair) = none := by
    rw [List.find?_eq_none]
    intro r hr hsame
    exact h (eq_of_beq hsame ▸ List.mem_map_of_mem (List.mem_reverse.mp hr))
  rw [relationCount, hnone, Option.map_none, Option.getD_none]

attribute [ext] ConsistencyReport

namespace ConsistencyReport

variable (forest : ChainForest) (results : InteractionResults)

/-- A mismatch is listed where the counts differ in their last 64 bits, with these. -/
theorem mem_countMismatches {k : CountMismatch} :
    k ∈ (compare forest results).countMismatches ↔
      k.chainCount.toNat = forest.callCount k.services % 2 ^ 64 ∧
      k.resultsCount.toNat = results.lastCount k.services ∧ k.chainCount ≠ k.resultsCount := by
  rw [← UInt64.toNat_ofNat', ← results.toNat_relationCount, UInt64.toNat_inj, UInt64.toNat_inj]
  simp only [compare, ofCounts, List.mem_filterMap, (List.mergeSort_perm _ _).mem_iff,
    List.mem_eraseDups, List.mem_append, getD_lookup_edgeCounts]
  constructor
  · rintro ⟨pair, -, hk⟩
    split_ifs at hk with hsame
    cases hk
    exact ⟨rfl, rfl, hsame⟩
  · rintro ⟨hchain, hresults, hne⟩
    rw [hchain, hresults] at hne
    refine ⟨k.services, ?_, ?_⟩
    · by_contra hnot
      rw [not_or] at hnot
      exact hne ((ofNat_callCount_eq_zero hnot.1).trans (relationCount_eq_zero hnot.2).symm)
    · rw [if_neg hne, ← hchain, ← hresults]
      rfl

theorem pairwise_countMismatches :
    (compare forest results).countMismatches.Pairwise
      fun a b => toLex a.services < toLex b.services := by
  refine List.Pairwise.filterMap _ ?_
    (pairwise_lt_mergeSort toLex.injective pairLe_iff (nodup_eraseDups _))
  intro a b hab k hk l hl
  dsimp only at hk hl
  split_ifs at hk hl
  cases hk
  cases hl
  exact hab

/-- A pair of services is listed exactly if its counts differ in their last 64 bits. -/
theorem exists_mem_countMismatches_iff (pair : String × String) :
    (∃ k ∈ (compare forest results).countMismatches, k.services = pair) ↔
      forest.callCount pair % 2 ^ 64 ≠ results.lastCount pair := by
  constructor
  · rintro ⟨k, hk, rfl⟩ hsame
    obtain ⟨hchain, hresults, hne⟩ := (mem_countMismatches forest results).mp hk
    exact hne (UInt64.toNat_inj.mp (hchain.trans (hsame.trans hresults.symm)))
  · intro hne
    refine ⟨⟨pair.1, pair.2, UInt64.ofNat (forest.callCount pair),
      relationCount results.relations pair⟩, (mem_countMismatches forest results).mpr ?_, rfl⟩
    refine ⟨UInt64.toNat_ofNat', results.toNat_relationCount pair, ?_⟩
    rwa [Ne, ← UInt64.toNat_inj, UInt64.toNat_ofNat', results.toNat_relationCount]

theorem countMismatches_eq_nil_iff :
    (compare forest results).countMismatches = [] ↔
      ∀ pair, forest.callCount pair % 2 ^ 64 = results.lastCount pair := by
  rw [List.eq_nil_iff_forall_not_mem]
  constructor
  · intro h pair
    by_contra hne
    obtain ⟨k, hk, -⟩ := (exists_mem_countMismatches_iff forest results pair).mpr hne
    exact h k hk
  · intro h k hk
    exact (exists_mem_countMismatches_iff forest results k.services).mp ⟨k, hk, rfl⟩ (h k.services)

theorem isConsistent_iff (r : ConsistencyReport) :
    r.isConsistent = true ↔
      r.countMismatches = [] ∧ r.missingInResults = [] ∧ r.extraInResults = [] := by
  simp [isConsistent, and_assoc]

/-- Roots, siblings and interactions in another order make the same report. -/
theorem compare_reordered {forest forest' : ChainForest} {results : InteractionResults}
    {interactions : List CallSite} (hforest : Reordered forest forest')
    (hinteractions : results.interactions.Perm interactions) :
    compare forest' { results with interactions } = compare forest results := by
  have hcounts : (compare forest' { results with interactions }).countMismatches =
      (compare forest results).countMismatches := by
    apply eq_of_pairwise_lt (pairwise_countMismatches _ _) (pairwise_countMismatches _ _)
    intro k
    rw [mem_countMismatches, mem_countMismatches, hforest.callCount_eq]
    rfl
  have hchains : ∀ c, c ∈ rootCalls forest' ↔ c ∈ rootCalls forest := by
    intro c
    exact hforest.rootCalls_perm.mem_iff.symm
  have hrecorded : ∀ c, c ∈ interactions.map ApiCall.ofCallSite ↔
      c ∈ results.interactions.map ApiCall.ofCallSite := by
    intro c
    exact (hinteractions.map _).mem_iff.symm
  have hmissing : (compare forest' { results with interactions }).missingInResults =
      (compare forest results).missingInResults := callsWithout_congr hchains hrecorded
  have hextra : (compare forest' { results with interactions }).extraInResults =
      (compare forest results).extraInResults := callsWithout_congr hrecorded hchains
  exact ConsistencyReport.ext hcounts hmissing hextra

/-- A report lists the differences, all of them and each once: the pairs of services whose calls, at
any depth of the chains, do not add up to their last relation, with both numbers; and the calls that
are found right below the roots only or among the interactions only. It is empty exactly if there is
none, and the order of roots, siblings and interactions does not matter. Counts of roots are no
counts of calls, so they may be anything. -/
theorem compare_lists_differences (forest : ChainForest) (results : InteractionResults)
    (h : countSum forest.calls < UInt64.size) :
    let report := compare forest results
    let listed := report.countMismatches.map fun k =>
      (k.services, k.chainCount.toNat, k.resultsCount.toNat)
    let inChains : Set ApiCall :=
      { c | ∃ root ∈ forest, ∃ n ∈ root.calls, ApiCall.ofNode root.service n = c }
    let inResults : Set ApiCall := { c | ∃ site ∈ results.interactions, ApiCall.ofCallSite site = c }
    (listed.Pairwise fun a b => toLex a.1 < toLex b.1) ∧
    (∀ pair inChain inResult, (pair, inChain, inResult) ∈ listed ↔
      forest.callCount pair ≠ results.lastCount pair ∧
        inChain = forest.callCount pair ∧ inResult = results.lastCount pair) ∧
    (report.missingInResults.Pairwise fun a b => a.position < b.position) ∧
    { c | c ∈ report.missingInResults } = inChains \ inResults ∧
    (report.extraInResults.Pairwise fun a b => a.position < b.position) ∧
    { c | c ∈ report.extraInResults } = inResults \ inChains ∧
    (report.isConsistent = true ↔
      (∀ pair, forest.callCount pair = results.lastCount pair) ∧ inChains = inResults) ∧
    ∀ forest' interactions, Reordered forest forest' → results.interactions.Perm interactions →
      compare forest' { results with interactions } = report := by
  intro report listed inChains inResults
  have hexact : ∀ pair, forest.callCount pair % 2 ^ 64 = forest.callCount pair := by
    intro pair
    exact Nat.mod_eq_of_lt (Nat.lt_of_le_of_lt (forest.callCount_le_countSum pair) h)
  have hlisted : ∀ pair inChain inResult, (pair, inChain, inResult) ∈ listed ↔
      forest.callCount pair ≠ results.lastCount pair ∧
        inChain = forest.callCount pair ∧ inResult = results.lastCount pair := by
    intro pair inChain inResult
    rw [List.mem_map]
    constructor
    · rintro ⟨k, hk, heq⟩
      cases heq
      have hne := (exists_mem_countMismatches_iff forest results k.services).mp ⟨k, hk, rfl⟩
      obtain ⟨hchain, hresults, -⟩ := (mem_countMismatches forest results).mp hk
      rw [hexact] at hne hchain
      exact ⟨hne, hchain, hresults⟩
    · rintro ⟨hne, rfl, rfl⟩
      rw [← hexact] at hne
      obtain ⟨k, hk, rfl⟩ := (exists_mem_countMismatches_iff forest results pair).mpr hne
      obtain ⟨hchain, hresults, -⟩ := (mem_countMismatches forest results).mp hk
      exact ⟨k, hk, by rw [hchain, hresults, hexact]⟩
  have hmissing : { c | c ∈ report.missingInResults } = inChains \ inResults := by
    ext c
    simp [report, compare, ofCounts, mem_callsWithout, mem_rootCalls, inChains, inResults]
  have hextra : { c | c ∈ report.extraInResults } = inResults \ inChains := by
    ext c
    simp [report, compare, ofCounts, mem_callsWithout, mem_rootCalls, inChains, inResults]
  refine ⟨?_, hlisted, pairwise_callsWithout _ _, hmissing, pairwise_callsWithout _ _, hextra,
    ?_, ?_⟩
  · exact List.pairwise_map.mpr (pairwise_countMismatches forest results)
  · have hnil : ∀ calls : List ApiCall, calls = [] ↔ { c | c ∈ calls } = (∅ : Set ApiCall) := by
      intro calls
      rw [List.eq_nil_iff_forall_not_mem, Set.eq_empty_iff_forall_notMem]
      rfl
    rw [isConsistent_iff, countMismatches_eq_nil_iff, hnil, hnil, hmissing, hextra,
      Set.sdiff_eq_empty, Set.sdiff_eq_empty, ← Set.Subset.antisymm_iff]
    simp only [hexact]
  · intro forest' interactions hforest hinteractions
    exact compare_reordered hforest hinteractions

/-- A chain with a call back to its first service, and a call whose path is not known. -/
def returningForest (swapped : Bool) : ChainForest :=
  let back : ChainNode :=
    { service := "a", method := "o", endpoint := some "/o", verb := some .put, isLoop := true }
  let there : ChainNode :=
    { service := "b", method := "n", calls := [back], endpoint := some "/n", verb := some .get,
      count := some 2 }
  let elsewhere : ChainNode := { service := "c", method := "p" }
  [{ service := "a", method := "m",
     calls := if swapped then [elsewhere, there] else [there, elsewhere] }]

/-- Results in which one relation is listed twice and another one has no calls. -/
def uneasyResults : InteractionResults :=
  { relations := [⟨"a", "b", 7⟩, ⟨"a", "b", 2⟩, ⟨"c", "a", 5⟩]
    interactions := [⟨"a", "A.m", "b", "/n", .get⟩, ⟨"b", "B.q", "c", "/z", .post⟩] }

theorem reordered_returningForest : Reordered (returningForest false) (returningForest true) :=
  .cons (.swap ..) .nil

/-- The pair that only has a relation is listed after those that only have calls. The first of two
relations does not count. -/
theorem compare_lists_differences_returning :
    let forest := returningForest false
    let report := compare forest uneasyResults
    countSum forest.calls < UInt64.size ∧
      report.countMismatches = [⟨"a", "c", 1, 0⟩, ⟨"b", "a", 1, 0⟩, ⟨"c", "a", 0, 5⟩] ∧
      ⟨"a", "c", "", .get⟩ ∈ report.missingInResults ∧
      ⟨"b", "c", "/z", .post⟩ ∈ report.extraInResults ∧ report.isConsistent = false ∧
      compare (returningForest true)
        { uneasyResults with interactions := uneasyResults.interactions.reverse } = report := by
  intro forest report
  have hsum : countSum forest.calls < UInt64.size := by decide
  obtain ⟨_, hlisted, _, hmissing, _, hextra, hconsistent, hreordered⟩ :=
    compare_lists_differences forest uneasyResults hsum
  have hcounts : report.countMismatches =
      [⟨"a", "c", 1, 0⟩, ⟨"b", "a", 1, 0⟩, ⟨"c", "a", 0, 5⟩] := by cbv
  have hin : ApiCall.mk "a" "c" "" .get ∈ { c | c ∈ report.missingInResults } := by
    rw [hmissing]
    refine ⟨⟨_, List.mem_singleton_self _, { service := "c", method := "p" }, by simp, rfl⟩, ?_⟩
    simp [uneasyResults, ApiCall.ofCallSite]
  have hout : ApiCall.mk "b" "c" "/z" .post ∈ { c | c ∈ report.extraInResults } := by
    rw [hextra]
    refine ⟨⟨⟨"b", "B.q", "c", "/z", .post⟩, by simp [uneasyResults], rfl⟩, ?_⟩
    simp [forest, returningForest, ApiCall.ofNode]
  refine ⟨hsum, hcounts, hin, hout, ?_, ?_⟩
  · rw [Bool.eq_false_iff, Ne, hconsistent]
    rintro ⟨hsame, -⟩
    exact absurd (hsame ("b", "a")) (by decide)
  · exact hreordered _ _ reordered_returningForest (List.reverse_perm _).symm

/-- Where additions are checked, the report is the same, unless a number of calls needs more than 64
bits. -/
theorem compare?_eq_some_iff {report : ConsistencyReport} :
    compare? forest results = some report ↔
      (∀ pair, forest.callCount pair < 2 ^ 64) ∧ report = compare forest results := by
  rw [compare?, Option.map_eq_some_iff]
  simp only [edgeCounts?_eq_some_iff]
  constructor
  · rintro ⟨_, ⟨hfits, rfl⟩, rfl⟩
    exact ⟨hfits, rfl⟩
  · rintro ⟨hfits, rfl⟩
    exact ⟨_, ⟨hfits, rfl⟩, rfl⟩

theorem compare?_eq_none_iff :
    compare? forest results = none ↔ ∃ pair, 2 ^ 64 ≤ forest.callCount pair := by
  simp [Option.eq_none_iff_forall_ne_some, compare?_eq_some_iff]

/-- A pair of services that is not listed agrees with its last relation in the last 64 bits of the
exact number of its calls, so the numbers are equal exactly if this one fits into 64 bits. A listed
pair always has different numbers. Where additions are checked, there is no report exactly if some
number does not fit, and otherwise the listed pairs are those with different numbers. -/
theorem unlisted_pair_agrees_in_words (forest : ChainForest) (results : InteractionResults) :
    (∀ pair, let listed := ∃ k ∈ (compare forest results).countMismatches, k.services = pair
      (¬ listed ↔ forest.callCount pair % 2 ^ 64 = results.lastCount pair) ∧
      (¬ listed → (forest.callCount pair = results.lastCount pair ↔
        forest.callCount pair < 2 ^ 64)) ∧
      (listed → forest.callCount pair ≠ results.lastCount pair)) ∧
    (compare? forest results = none ↔ ∃ pair, 2 ^ 64 ≤ forest.callCount pair) ∧
    ∀ report, compare? forest results = some report → report = compare forest results ∧
      ∀ pair, (∃ k ∈ report.countMismatches, k.services = pair) ↔
        forest.callCount pair ≠ results.lastCount pair := by
  refine ⟨?_, compare?_eq_none_iff forest results, ?_⟩
  · intro pair listed
    have hlisted : ¬ listed ↔ forest.callCount pair % 2 ^ 64 = results.lastCount pair := by
      rw [not_congr (exists_mem_countMismatches_iff forest results pair), not_not]
    have hlast := results.lastCount_lt pair
    refine ⟨hlisted, ?_, ?_⟩
    · intro hnot
      have hwords := hlisted.mp hnot
      constructor
      · intro hsame
        rw [hsame]
        exact hlast
      · intro hfits
        rwa [Nat.mod_eq_of_lt hfits] at hwords
    · intro hin hsame
      refine hlisted.mpr ?_ hin
      rw [hsame]
      exact Nat.mod_eq_of_lt hlast
  · intro report hreport
    obtain ⟨hfits, rfl⟩ := (compare?_eq_some_iff forest results).mp hreport
    refine ⟨rfl, fun pair => ?_⟩
    rw [exists_mem_countMismatches_iff, Nat.mod_eq_of_lt (hfits pair)]

/-- Two calls whose counts add up to one more than there are words. -/
def wrappingForest : ChainForest :=
  [{ service := "a", method := "m",
     calls := [{ service := "b", method := "n", endpoint := some "/n", verb := some .get,
                 count := some 18446744073709551615 },
               { service := "b", method := "o", endpoint := some "/o", verb := some .get,
                 count := some 2 }] }]

/-- Results with both calls and a relation that counts one. -/
def wrappedResults : InteractionResults :=
  { totalRelations := 1
    relations := [⟨"a", "b", 1⟩]
    interactions := [⟨"a", "A.m", "b", "/n", .get⟩, ⟨"a", "A.m", "b", "/o", .get⟩] }

/-- Both artifacts in one directory. -/
def wrappingTree : FileTree :=
  ⟨[(["interaction_chain.json"], .file wrappingForest.toJson.render.toUTF8),
    (["interactions_results.json"], .file wrappedResults.toJson.render.toUTF8)], []⟩

/-- The artifacts are read as they are, and there are more calls than the relation counts. Yet no
mismatch is reported: unchecked additions make a report that lists nothing, and a checked one stops
the comparison. -/
theorem wrapped_sum_passes_as_consistent :
    Artifact.readChains wrappingTree "interaction_chain.json" = .ok wrappingForest ∧
    Artifact.readInteractions wrappingTree "interactions_results.json" = .ok wrappedResults ∧
    wrappingForest.callCount ("a", "b") = 2 ^ 64 + 1 ∧ wrappedResults.lastCount ("a", "b") = 1 ∧
    compare wrappingForest wrappedResults = {} ∧ Analysis.compare wrappingTree {} "" = .ok none := by
  have hchains : Path.Names "interaction_chain.json" "interaction_chain.json" := by decide
  have hinteractions : Path.Names "interactions_results.json" "interactions_results.json" := by decide
  have hforest : Artifact.readChains wrappingTree "interaction_chain.json" = .ok wrappingForest := by
    rw [Artifact.readChains_of_bytes? (FileTree.bytes?_name hchains rfl rfl), if_pos]
    · simp [wrappingForest, ChainNode.pruned, ChainNode.pruneds]
    · decide
  have hresults : Artifact.readInteractions wrappingTree "interactions_results.json" =
      .ok wrappedResults :=
    Artifact.readInteractions_of_bytes? (FileTree.bytes?_name hinteractions rfl rfl)
  have hcount : wrappingForest.callCount ("a", "b") = 2 ^ 64 + 1 := by decide
  refine ⟨hforest, hresults, hcount, by decide, by cbv, ?_⟩
  have hpaths : ({} : Settings).output.chainsPath "" = "interaction_chain.json" ∧
      ({} : Settings).output.interactionsPath "" = "interactions_results.json" := by decide
  have hstopped : compare? wrappingForest wrappedResults = none :=
    (compare?_eq_none_iff _ _).mpr ⟨("a", "b"), by omega⟩
  unfold Analysis.compare
  rw [hpaths.1, hpaths.2, hforest, hresults]
  exact congrArg Except.ok hstopped

end ConsistencyReport

end ServiceChains
