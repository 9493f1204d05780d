import ServiceChains.Proofs.Comparison

/-!
# Calls between two services

The calls from one service to another are the parts of a forest at which a node of the first has a
call to the second, at any depth. Their counts add up to an exact number. A comparison keeps its last
64 bits, or stops if there are more and additions are checked. Putting trees or siblings into another
order moves calls and loses none.
-/
namespace ServiceChains

namespace ChainNode

mutual

/-- The nodes of a tree, each before those below it. -/
def nodes : ChainNode → List ChainNode
  | ⟨service, method, calls, endpoint, verb, count, isLoop⟩ =>
    ⟨service, method, calls, endpoint, verb, count, isLoop⟩ :: nodesOf calls

/-- The nodes of several trees. -/
def nodesOf : List ChainNode → List ChainNode
  | [] => []
  | n :: ns => nodes n ++ nodesOf ns

end

theorem nodesOf_eq_flatMap (ns : List ChainNode) : nodesOf ns = ns.flatMap nodes := by
  induction ns with
  | nil => rw [nodesOf, List.flatMap_nil]
  | cons n ns ih => rw [nodesOf, ih, List.flatMap_cons]

theorem nodes_eq (n : ChainNode) : n.nodes = n :: n.calls.flatMap nodes := by
  cases n
  rw [nodes, nodesOf_eq_flatMap]

/-- The edges from a service to the nodes that it calls. -/
def edgesTo (service : String) (calls : List ChainNode) : List ((String × String) × UInt64) :=
  calls.map fun c => ((service, c.service), c.count.getD 1)

/-- The edges of a tree are those from its root and those of the trees right below. -/
theorem edges_perm (n : ChainNode) :
    n.edges.Perm (edgesTo n.service n.calls ++ n.calls.flatMap edges) := by
  rw [edges_eq, edgesBelow_eq_flatMap]
  exact (List.map_append_flatMap_perm _ _ _).symm

/-- Every edge of a tree starts at one of its nodes. -/
theorem edges_perm_nodes (n : ChainNode) :
    n.edges.Perm (n.nodes.flatMap fun m => edgesTo m.service m.calls) := by
  induction n using induction_calls with
  | step n ih =>
    rw [nodes_eq, List.flatMap_cons, List.flatMap_assoc]
    exact n.edges_perm.trans ((List.Perm.flatMap_left _ ih).append_left _)

end ChainNode

namespace ChainForest

open ChainNode

/-- The calls in a forest, at any depth. -/
def calls (forest : ChainForest) : List ChainNode :=
  (forest.flatMap nodes).flatMap ChainNode.calls

/-- The calls in a forest from one service to another, at any depth. -/
def callsBetween (forest : ChainForest) (pair : String × String) : List ChainNode :=
  (forest.flatMap nodes).flatMap fun n => n.calls.filter fun c => (n.service, c.service) = pair

/-- The exact sum of the counts of calls, one where there is none. -/
def countSum (calls : List ChainNode) : Nat :=
  (calls.map fun c => (c.count.getD 1).toNat).sum

/-- The exact number of calls from one service to another. -/
def callCount (forest : ChainForest) (pair : String × String) : Nat :=
  countSum (forest.callsBetween pair)

theorem callsBetween_sublist (forest : ChainForest) (pair : String × String) :
    (forest.callsBetween pair).Sublist forest.calls := by
  apply List.Sublist.flatMap_right
  intro n _
  exact List.filter_sublist

theorem callCount_le_countSum (forest : ChainForest) (pair : String × String) :
    forest.callCount pair ≤ countSum forest.calls := by
  apply List.Sublist.sum_le_sum ((forest.callsBetween_sublist pair).map _)
  simp

/-- The number of calls is the sum over the edges between the services. -/
theorem callCount_eq_sum_edges (forest : ChainForest) (pair : String × String) :
    forest.callCount pair =
      (((forest.flatMap edges).filter fun e => e.1 = pair).map fun e => e.2.toNat).sum := by
  have hedges : (forest.flatMap edges).Perm
      ((forest.flatMap nodes).flatMap fun n => edgesTo n.service n.calls) := by
    rw [List.flatMap_assoc]
    exact List.Perm.flatMap_left _ fun n _ => n.edges_perm_nodes
  rw [((hedges.filter _).map _).sum_eq, callCount, countSum, callsBetween, List.filter_flatMap,
    List.map_flatMap, List.map_flatMap]
  congr 2
  funext n
  rw [edgesTo, List.filter_map, List.map_map]
  rfl

/-- What a comparison counts between two services are the last 64 bits of the number of calls. -/
theorem getD_lookup_edgeCounts (forest : ChainForest) (pair : String × String) :
    ((edgeCounts forest).lookup pair).getD 0 = UInt64.ofNat (forest.callCount pair) := by
  rw [callCount_eq_sum_edges]
  exact getD_lookup_foldl_bump (forest.flatMap edges) pair

/-- Where additions are checked, calls are counted exactly if each number of calls fits into 64 bits.
-/
theorem edgeCounts?_eq_some_iff {forest : ChainForest} {counts : List ((String × String) × UInt64)} :
    edgeCounts? forest = some counts ↔
      (∀ pair, forest.callCount pair < 2 ^ 64) ∧ edgeCounts forest = counts := by
  simp only [callCount_eq_sum_edges]
  exact foldlM_bump?_eq_some_iff (forest.flatMap edges) counts

/-- The same trees, with roots and siblings at every level in another order. -/
inductive Reordered : ChainForest → ChainForest → Prop
  | nil : Reordered [] []
  | cons {n : ChainNode} {calls : List ChainNode} {ns ns' : ChainForest} :
      Reordered n.calls calls → Reordered ns ns' → Reordered (n :: ns) ({ n with calls } :: ns')
  | swap (a b : ChainNode) (ns : ChainForest) : Reordered (a :: b :: ns) (b :: a :: ns)
  | trans {ns ns' ns'' : ChainForest} : Reordered ns ns' → Reordered ns' ns'' → Reordered ns ns''

namespace Reordered

variable {forest forest' : ChainForest}

/-- What does not depend on the calls of a node is found at the same nodes, in another order. -/
theorem map_perm {β : Type} {f : ChainNode → β} (hf : ∀ n calls, f { n with calls } = f n)
    (h : Reordered forest forest') : (forest.map f).Perm (forest'.map f) := by
  induction h with
  | nil => rfl
  | cons _ _ _ ih =>
    rw [List.map_cons, List.map_cons, hf]
    exact ih.cons _
  | swap a b ns => exact .swap ..
  | trans _ _ ih ih' => exact ih.trans ih'

/-- Reordering moves edges as they are. -/
theorem edges_perm (h : Reordered forest forest') :
    (forest.flatMap edges).Perm (forest'.flatMap edges) := by
  induction h with
  | nil => rfl
  | @cons n calls ns ns' hcalls _ ihcalls ih =>
    have hto : (edgesTo n.service n.calls).Perm (edgesTo n.service calls) :=
      hcalls.map_perm fun _ _ => rfl
    have htree : n.edges.Perm { n with calls }.edges :=
      calc
        n.edges.Perm (edgesTo n.service n.calls ++ n.calls.flatMap edges) := n.edges_perm
        List.Perm _ (edgesTo n.service calls ++ calls.flatMap edges) := hto.append ihcalls
        List.Perm _ { n with calls }.edges := (ChainNode.edges_perm { n with calls }).symm
    rw [List.flatMap_cons, List.flatMap_cons]
    exact htree.append ih
  | swap a b ns =>
    simp only [List.flatMap_cons, ← List.append_assoc]
    exact List.perm_append_comm.append_right _
  | trans _ _ ih ih' => exact ih.trans ih'

theorem callCount_eq (h : Reordered forest forest') (pair : String × String) :
    forest.callCount pair = forest'.callCount pair := by
  rw [callCount_eq_sum_edges, callCount_eq_sum_edges]
  exact ((h.edges_perm.filter _).map _).sum_eq

theorem rootCalls_perm (h : Reordered forest forest') :
    (rootCalls forest).Perm (rootCalls forest') := by
  induction h with
  | nil => rfl
  | @cons n calls ns ns' hcalls _ _ ih =>
    rw [rootCalls, rootCalls, List.flatMap_cons, List.flatMap_cons]
    exact (hcalls.map_perm fun _ _ => rfl).append ih
  | swap a b ns =>
    simp only [rootCalls, List.flatMap_cons, ← List.append_assoc]
    exact List.perm_append_comm.append_right _
  | trans _ _ ih ih' => exact ih.trans ih'

end Reordered

end ChainForest

end ServiceChains
