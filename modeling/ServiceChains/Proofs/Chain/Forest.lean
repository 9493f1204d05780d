import ServiceChains.Proofs.Chain.Key
import ServiceChains.Proofs.Chain.Tracing
import ServiceChains.Proofs.Tally

/-!
# Merged roots

The roots of a forest are the chains of the first triggers of each structural key, among the triggers
whose chain has a call. A root that stands for several triggers counts them. So every such trigger is
found at exactly one root, and the counts of the roots add up to the number of these triggers.
-/
namespace ServiceChains

open ChainNode

/-- The count of a root that stands for `n` triggers. -/
def rootCount (n : Nat) : Option UInt64 :=
  if n = 1 then none else some (UInt64.ofNat n)

theorem rootCount_succ {n : Nat} (h : 0 < n) :
    some ((rootCount n).getD 1 + 1) = rootCount (n + 1) := by
  unfold rootCount
  by_cases hn : n = 1
  · subst hn
    rfl
  · rw [if_neg hn, if_neg (by omega), UInt64.ofNat_add]
    rfl

theorem toNat_rootCount {n : Nat} (h : n < UInt64.size) : ((rootCount n).getD 1).toNat = n := by
  unfold rootCount
  by_cases hn : n = 1
  · subst hn
    rfl
  · rw [if_neg hn]
    exact UInt64.toNat_ofNat_of_lt' h

/-- A node with another count. -/
def ChainNode.withCount (n : ChainNode) (count : Option UInt64) : ChainNode :=
  { n with count }

@[simp] theorem withCount_count (n : ChainNode) (count : Option UInt64) :
    (n.withCount count).count = count := rfl

theorem withCount_of_count_eq {n : ChainNode} {count : Option UInt64} (h : n.count = count) :
    n.withCount count = n := by
  cases n
  subst h
  rfl

@[simp] theorem structuralKey_withCount (n : ChainNode) (count : Option UInt64) :
    (n.withCount count).structuralKey = n.structuralKey := by
  rw [structuralKey_eq, structuralKey_eq]
  rfl

/-- Counting a root changes neither its method and calls nor the nodes below it. -/
theorem exists_occurs_of_withCount {root n : ChainNode} {count : Option UInt64}
    {above : List ChainNode} (h : (root.withCount count).Occurs above n) :
    ∃ above' n', root.Occurs above' n' ∧ n'.ref = n.ref ∧ n'.calls = n.calls ∧
      n'.isLoop = n.isLoop := by
  rcases h.eq_root_or_below with rfl | ⟨c, hc, above', hocc⟩
  · exact ⟨[], root, .root, rfl, rfl, rfl⟩
  · exact ⟨above' ++ [root], n, hocc.of_call hc, rfl, rfl, rfl⟩

namespace ChainForest

/-- Merging roots one after the other keeps the first of each key and counts the others there. -/
theorem foldl_merge_eq {ι : Type} (root : ι → ChainNode) (items : List ι)
    (hcount : ∀ i ∈ items, (root i).count = none) :
    items.foldl (fun roots i => merge (root i).structuralKey (root i) roots) [] =
      (firstsBy (fun i => (root i).structuralKey) items).map fun i =>
        ((root i).structuralKey, (root i).withCount (rootCount
          (items.countP fun j => (root j).structuralKey = (root i).structuralKey))) := by
  -- The last item either raises the count of a root that is there or becomes the last root.
  induction items using List.reverseRecOn with
  | nil => rfl
  | append_singleton items x ih =>
    have hfirsts := map_firstsBy (fun i => (root i).structuralKey) items
    have hx := hcount x (by simp)
    rw [List.foldl_append, ih (fun i hi => hcount i (by simp [hi])), List.foldl_cons,
      List.foldl_nil, firstsBy_concat]
    unfold merge
    split_ifs with hmem
    · rw [upsert_map_of_mem (hfirsts ▸ nodup_eraseDups _) (by rwa [hfirsts, List.mem_eraseDups])]
      apply List.map_congr_left
      intro i hi
      rw [List.countP_append, List.countP_singleton]
      by_cases hix : (root i).structuralKey = (root x).structuralKey
      · have hpos : 0 < items.countP fun j => (root j).structuralKey = (root i).structuralKey :=
          List.countP_pos_iff.mpr ⟨i, (firstsBy_sublist _ _).subset hi, by simp⟩
        rw [if_pos hix, withCount_count, rootCount_succ hpos]
        simp [hix, withCount]
      · simp [hix, Ne.symm hix]
    · rw [upsert_map_of_not_mem (by rwa [hfirsts, List.mem_eraseDups]), List.map_append]
      congr 1
      · apply List.map_congr_left
        intro i hi
        have hix : (root x).structuralKey ≠ (root i).structuralKey := fun he =>
          hmem (he ▸ List.mem_map_of_mem ((firstsBy_sublist _ _).subset hi))
        simp [List.countP_append, hix]
      · have hzero : items.countP (fun j => (root j).structuralKey = (root x).structuralKey) = 0 := by
          apply List.countP_eq_zero.mpr
          intro j hj he
          exact hmem (of_decide_eq_true he ▸ List.mem_map_of_mem hj)
        simp only [List.map_singleton, List.countP_append, hzero, List.countP_singleton]
        rw [withCount_of_count_eq (by simpa [rootCount] using hx)]

end ChainForest

namespace Tracer

/-- Triggers are the calling methods that no call reaches, in order of first appearance. -/
theorem triggers_eq (t : Tracer) :
    t.triggers = ((t.sites.map fun (site, _) => (site.source, site.bareMethod)).filter
      fun m => m ∉ t.targets).eraseDups := by
  unfold triggers
  exact foldl_insertNew_eq (· ∈ t.targets) _

theorem length_triggers_le (t : Tracer) : t.triggers.length ≤ t.sites.length := by
  rw [triggers_eq]
  calc
    _ ≤ _ := length_eraseDups_le _
    _ ≤ _ := List.length_filter_le _ _
    _ = t.sites.length := List.length_map _

variable (t : Tracer)

/-- The structural key of the chain of a method. -/
def keyOf (m : MethodRef) : String :=
  (t.trace m).structuralKey

/-- The triggers whose chain has a call. -/
def callers : List MethodRef :=
  t.triggers.filter fun m => !(t.trace m).calls.isEmpty

theorem mem_callers {m : MethodRef} :
    m ∈ t.callers ↔ m ∈ t.triggers ∧ (t.trace m).calls ≠ [] := by
  simp [callers]

theorem length_callers :
    t.callers.length = t.triggers.countP fun m => (t.trace m).calls ≠ [] := by
  rw [callers, ← List.countP_eq_length_filter]
  apply List.countP_congr
  intro m _
  simp

/-- The forest holds the chains of the first triggers of each key. -/
theorem traceAll_eq :
    t.traceAll = (firstsBy t.keyOf t.callers).map fun m =>
      (t.trace m).withCount (rootCount (t.callers.countP fun m' => t.keyOf m' = t.keyOf m)) := by
  unfold traceAll
  rw [List.filter_map, List.foldl_map, ChainForest.foldl_merge_eq t.trace _
    (fun m _ => t.trace_count m), List.map_map]
  rfl

theorem traceAll_of_callers_eq {m : MethodRef} (h : t.callers = [m]) : t.traceAll = [t.trace m] := by
  rw [traceAll_eq, h]
  have hone : [m].countP (fun m' => t.keyOf m' = t.keyOf m) = 1 := by simp
  have hsame : (t.trace m).withCount (rootCount 1) = t.trace m :=
    withCount_of_count_eq (t.trace_count m)
  simp only [firstsBy, List.filter_nil, List.map_singleton, hone, hsame]

/-- A trigger with the key of a chain that has a call has a call itself. -/
theorem calls_ne_nil_of_keyOf_eq {m m' : MethodRef} (h : t.keyOf m' = t.keyOf m)
    (hm : (t.trace m).calls ≠ []) : (t.trace m').calls ≠ [] := by
  intro hm'
  exact hm ((calls_eq_nil_iff_of_structuralKey_eq h).mp hm')

/-- All triggers with the key of a caller are callers. -/
theorem countP_callers_eq {m : MethodRef} (h : m ∈ t.callers) :
    t.callers.countP (fun m' => t.keyOf m' = t.keyOf m) =
      t.triggers.countP fun m' => t.keyOf m' = t.keyOf m := by
  unfold callers
  rw [List.countP_filter]
  apply List.countP_congr
  intro m' _
  have hcalls : t.keyOf m' = t.keyOf m → (t.trace m').calls ≠ [] := fun hkey =>
    t.calls_ne_nil_of_keyOf_eq hkey (t.mem_callers.mp h).2
  simpa using hcalls

/-- The first caller of a key is its first trigger. -/
theorem find?_triggers_of_mem_firstsBy {m : MethodRef} (h : m ∈ firstsBy t.keyOf t.callers) :
    t.triggers.find? (fun m' => t.keyOf m' = t.keyOf m) = some m := by
  have hfind := find?_of_mem_firstsBy t.keyOf h
  have hm := t.mem_callers.mp ((firstsBy_sublist _ _).subset h)
  rw [callers, List.find?_filter] at hfind
  rw [← hfind]
  congr 1
  funext m'
  by_cases hkey : t.keyOf m' = t.keyOf m
  · simp [hkey, t.calls_ne_nil_of_keyOf_eq hkey hm.2]
  · simp [hkey]

/-- The roots of a forest come from the first triggers of their keys. -/
theorem exists_first_of_mem_traceAll {r : ChainNode} (h : r ∈ t.traceAll) :
    ∃ m ∈ firstsBy t.keyOf t.callers, r.structuralKey = t.keyOf m ∧ r.calls = (t.trace m).calls ∧
      r.count = rootCount (t.triggers.countP fun m' => t.keyOf m' = r.structuralKey) := by
  rw [traceAll_eq] at h
  obtain ⟨m, hm, rfl⟩ := List.mem_map.mp h
  have hcaller := (firstsBy_sublist _ _).subset hm
  refine ⟨m, hm, structuralKey_withCount _ _, rfl, ?_⟩
  rw [withCount_count, t.countP_callers_eq hcaller, structuralKey_withCount]
  rfl

theorem map_structuralKey_traceAll :
    t.traceAll.map structuralKey = (t.callers.map t.keyOf).eraseDups := by
  rw [traceAll_eq, ← map_firstsBy, List.map_map]
  apply List.map_congr_left
  intro m _
  exact structuralKey_withCount _ _

theorem count_map_keyOf (m : MethodRef) :
    (t.callers.map t.keyOf).count (t.keyOf m) =
      t.callers.countP fun m' => t.keyOf m' = t.keyOf m := by
  rw [List.count_eq_countP, List.countP_map]
  rfl

/-- The counts of the roots add up to the number of callers. -/
theorem sum_count_traceAll (h : t.callers.length < UInt64.size) :
    (t.traceAll.map fun r => (r.count.getD 1).toNat).sum = t.callers.length := by
  have hkeys := sum_count_eraseDups (t.callers.map t.keyOf)
  rw [← map_firstsBy, List.map_map, List.length_map] at hkeys
  rw [traceAll_eq, List.map_map, ← hkeys]
  congr 1
  apply List.map_congr_left
  intro m _
  have hle : t.callers.countP (fun m' => t.keyOf m' = t.keyOf m) ≤ t.callers.length :=
    List.countP_le_length
  simp only [Function.comp_apply, withCount_count]
  rw [toNat_rootCount (by omega), t.count_map_keyOf]

/-- No trigger is lost and none is counted twice. The roots of a forest have different keys and at
least one call. Every trigger whose chain has a call has the key of exactly one root. The roots are,
apart from their counts, the chains of the first triggers of their keys, in the order of the
triggers. A root counts the triggers of its key if there are several, so that the counts, one where
there is none, add up to the number of triggers whose chain has a call. -/
theorem traceAll_merges_triggers (sites : List CallSite) (catalog : Catalog) (policy : Policy)
    (reachable : ReachableIndex) :
    let t := ofCatalog sites catalog policy reachable
    let sameKey := fun (r : ChainNode) (m : MethodRef) =>
      decide ((t.trace m).structuralKey = r.structuralKey)
    (t.traceAll.map structuralKey).Nodup ∧
    (∀ r ∈ t.traceAll, r.calls ≠ []) ∧
    (∀ m ∈ t.triggers, (t.trace m).calls ≠ [] → ∃! r, r ∈ t.traceAll ∧ sameKey r m = true) ∧
    (∃ firsts, firsts.Sublist t.triggers ∧
      List.Forall₂ (fun r m => t.triggers.find? (sameKey r) = some m ∧
        { r with count := none } = t.trace m) t.traceAll firsts) ∧
    (∀ r ∈ t.traceAll, r.count =
      if t.triggers.countP (sameKey r) = 1 then none
      else some (UInt64.ofNat (t.triggers.countP (sameKey r)))) ∧
    (sites.length < UInt64.size →
      (∀ r ∈ t.traceAll, (r.count.getD 1).toNat = t.triggers.countP (sameKey r)) ∧
      (t.traceAll.map fun r => (r.count.getD 1).toNat).sum =
        t.triggers.countP fun m => (t.trace m).calls ≠ []) := by
  intro t sameKey
  have hnodup : (t.traceAll.map structuralKey).Nodup := by
    rw [map_structuralKey_traceAll]
    exact nodup_eraseDups _
  have hcount : ∀ r ∈ t.traceAll, r.count = rootCount (t.triggers.countP (sameKey r)) := by
    intro r hr
    obtain ⟨_, _, _, _, hc⟩ := t.exists_first_of_mem_traceAll hr
    exact hc
  refine ⟨hnodup, ?_, ?_, ?_, hcount, ?_⟩
  · intro r hr
    obtain ⟨m, hm, _, hcalls, _⟩ := t.exists_first_of_mem_traceAll hr
    rw [hcalls]
    exact (t.mem_callers.mp ((firstsBy_sublist _ _).subset hm)).2
  · intro m hm hcalls
    have hkey : t.keyOf m ∈ t.traceAll.map structuralKey := by
      rw [map_structuralKey_traceAll, List.mem_eraseDups]
      exact List.mem_map_of_mem (t.mem_callers.mpr ⟨hm, hcalls⟩)
    obtain ⟨r, hr, hrm⟩ := List.mem_map.mp hkey
    refine ⟨r, ⟨hr, decide_eq_true hrm.symm⟩, ?_⟩
    rintro r' ⟨hr', hrm'⟩
    exact List.inj_on_of_nodup_map hnodup hr' hr ((of_decide_eq_true hrm').symm.trans hrm.symm)
  · refine ⟨firstsBy t.keyOf t.callers, (firstsBy_sublist _ _).trans List.filter_sublist, ?_⟩
    rw [traceAll_eq, List.forall₂_map_left_iff]
    apply List.forall₂_same.mpr
    intro m hm
    refine ⟨?_, withCount_of_count_eq (t.trace_count m)⟩
    simp only [sameKey, structuralKey_withCount]
    exact t.find?_triggers_of_mem_firstsBy hm
  · intro hsites
    have htriggers : t.triggers.length < UInt64.size := by
      have hle := t.length_triggers_le
      simp only [t, ofCatalog, List.length_map] at hle ⊢
      omega
    constructor
    · intro r hr
      have hle : t.triggers.countP (sameKey r) ≤ t.triggers.length := List.countP_le_length
      rw [hcount r hr, toNat_rootCount (by omega)]
    · have hle : t.callers.length ≤ t.triggers.length := List.length_filter_le _ _
      rw [t.sum_count_traceAll (by omega), t.length_callers]

/-- Three methods of one service and one of another that make the same call, and one whose call
reaches nothing. -/
def sharedSites : List CallSite :=
  [⟨"a", "p.A.x", "c", "/z", .get⟩, ⟨"a", "p.A.n", "c", "/none", .get⟩,
    ⟨"b", "p.B.u", "c", "/z", .get⟩, ⟨"a", "p.A.v", "c", "/z", .get⟩,
    ⟨"a", "p.A.w", "c", "/z", .get⟩]

/-- The last trigger is found at one root, and four of the five triggers are counted. -/
theorem traceAll_merges_triggers_shared :
    let t := ofCatalog sharedSites sampleCatalog .first {}
    t.triggers = [("a", "x"), ("a", "n"), ("b", "u"), ("a", "v"), ("a", "w")] ∧
      (∃! r, r ∈ t.traceAll ∧
        decide ((t.trace ("a", "w")).structuralKey = r.structuralKey) = true) ∧
      (t.traceAll.map fun r => (r.count.getD 1).toNat).sum = 4 := by
  intro t
  obtain ⟨_, _, hroot, _, _, hsum⟩ :=
    traceAll_merges_triggers sharedSites sampleCatalog .first {}
  have htriggers : t.triggers = [("a", "x"), ("a", "n"), ("b", "u"), ("a", "v"), ("a", "w")] := by
    decide
  have hcalls : (t.trace ("a", "w")).calls.length = 1 := by cbv
  have hlive : t.triggers.countP (fun m => (t.trace m).calls ≠ []) = 4 := by cbv
  refine ⟨htriggers, hroot _ (htriggers ▸ by simp) ?_, (hsum (by decide)).2.trans hlive⟩
  intro hnil
  have hzero := congrArg List.length hnil
  exact absurd (hcalls.symm.trans hzero) (by decide)

end Tracer

end ServiceChains
