import Mathlib.Data.List.Basic
import ServiceChains.Chain.Node

/-!
# Positions in a chain

A node occurs in a tree below its proper ancestors, which are listed innermost first. The depth of a
tree is the greatest number of ancestors that a node of it has, so a bound on the ancestors of every
node bounds the depth.
-/
namespace ServiceChains.ChainNode

/-- The node `n` occurs in the tree of `root` with the proper ancestors `above`, innermost first. -/
inductive Occurs (root : ChainNode) : List ChainNode → ChainNode → Prop
  | root : Occurs root [] root
  | call {above : List ChainNode} {n c : ChainNode} :
      Occurs root above n → c ∈ n.calls → Occurs root (n :: above) c

/-- What holds of a node once it holds of the nodes right below it holds of every node. -/
theorem induction_calls {P : ChainNode → Prop} (step : ∀ n, (∀ c ∈ n.calls, P c) → P n)
    (n : ChainNode) : P n := by
  refine @ChainNode.rec P (fun calls => ∀ c ∈ calls, P c) ?_ ?_ ?_ n
  · intro service method calls endpoint verb count isLoop ih
    exact step ⟨service, method, calls, endpoint, verb, count, isLoop⟩ ih
  · intro c hc
    cases hc
  · intro first others hfirst hothers c hc
    rcases List.mem_cons.mp hc with rfl | hc
    · exact hfirst
    · exact hothers c hc

/-- A node below a call of the root occurs below the root as well. -/
theorem Occurs.of_call {root c n : ChainNode} {above : List ChainNode} (hc : c ∈ root.calls)
    (h : c.Occurs above n) : root.Occurs (above ++ [root]) n := by
  induction h with
  | root => exact .call .root hc
  | call _ hmem ih => exact .call ih hmem

/-- A node of a tree is the root or stands in the tree of one of the root's calls. -/
theorem Occurs.eq_root_or_below {root n : ChainNode} {above : List ChainNode}
    (h : root.Occurs above n) : n = root ∨ ∃ c ∈ root.calls, ∃ above', c.Occurs above' n := by
  induction h with
  | root => exact .inl rfl
  | @call above n c _ hc ih =>
    rcases ih with rfl | ⟨top, htop, above', hocc⟩
    · exact .inr ⟨c, hc, [], .root⟩
    · exact .inr ⟨top, htop, n :: above', .call hocc hc⟩

theorem depth_eq (n : ChainNode) : n.depth = depths n.calls := by
  cases n
  simp only [depth]

/-- The deepest of several trees fixes their common depth. -/
theorem exists_depths_eq {calls : List ChainNode} (h : calls ≠ []) :
    ∃ c ∈ calls, depths calls = c.depth + 1 := by
  induction calls with
  | nil => contradiction
  | cons first others ih =>
    by_cases ho : others = []
    · exact ⟨first, by simp, by simp [depths, ho]⟩
    obtain ⟨c, hc, he⟩ := ih ho
    simp only [depths, he]
    rcases Nat.le_total (first.depth + 1) (c.depth + 1) with hle | hle
    · exact ⟨c, by simp [hc], by omega⟩
    · exact ⟨first, by simp, by omega⟩

theorem depth_lt_of_mem {n c : ChainNode} (h : c ∈ n.calls) : c.depth < n.depth := by
  have hall : ∀ calls : List ChainNode, c ∈ calls → c.depth < depths calls := by
    intro calls
    induction calls with
    | nil => intro hc; cases hc
    | cons first others ih =>
      intro hc
      simp only [depths]
      rcases List.mem_cons.mp hc with rfl | hc
      · omega
      · have := ih hc
        omega
  rw [depth_eq n]
  exact hall n.calls h

theorem depth_lt_succ_iff (n : ChainNode) (k : Nat) :
    n.depth < k + 1 ↔ ∀ c ∈ n.calls, c.depth < k := by
  constructor
  · intro h c hc
    have hlt := depth_lt_of_mem hc
    omega
  · intro h
    rw [depth_eq]
    by_cases hn : n.calls = []
    · simp [hn, depths]
    · obtain ⟨c, hc, he⟩ := exists_depths_eq hn
      have hlt := h c hc
      omega

/-- Some node has as many ancestors as the tree is deep. -/
theorem exists_occurs_depth (n : ChainNode) :
    ∃ above leaf, n.Occurs above leaf ∧ above.length = n.depth := by
  induction n using induction_calls with
  | step n ih =>
    rw [depth_eq]
    by_cases hn : n.calls = []
    · exact ⟨[], n, .root, by simp [hn, depths]⟩
    obtain ⟨c, hc, he⟩ := exists_depths_eq hn
    obtain ⟨above, leaf, hocc, hlen⟩ := ih c hc
    exact ⟨above ++ [n], leaf, hocc.of_call hc, by simp [hlen, he]⟩

/-- A tree is no deeper than the longest list of ancestors in it. -/
theorem depth_le_of_occurs {root : ChainNode} {bound : Nat}
    (h : ∀ above n, root.Occurs above n → above.length ≤ bound) : root.depth ≤ bound := by
  obtain ⟨above, leaf, hocc, hlen⟩ := exists_occurs_depth root
  have hle := h above leaf hocc
  omega

/-- A node without the data of the call that led to it. -/
def bare (n : ChainNode) : ChainNode :=
  { n with endpoint := none, verb := none, count := none }

@[simp] theorem bare_calls (n : ChainNode) : n.bare.calls = n.calls := rfl

@[simp] theorem bare_isLoop (n : ChainNode) : n.bare.isLoop = n.isLoop := rfl

end ServiceChains.ChainNode
