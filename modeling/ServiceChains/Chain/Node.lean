import ServiceChains.Verb

/-!
# Interaction chains

A chain is a tree of methods of services. Below a method stand the methods of other services that it
calls, each with the path and the verb of the call and the number of calls. A loop marker stands for
a method that is its own ancestor and has nothing below it. A forest is a list of chains.
-/
namespace ServiceChains

/-- A method of a service. -/
abbrev MethodRef := String × String

/-- A node of a chain. Path and verb are absent at a root; the count of a root is the number of
roots merged into it, if it is more than one. -/
structure ChainNode where
  service : String
  method : String
  calls : List ChainNode := []
  endpoint : Option String := none
  verb : Option Verb := none
  count : Option UInt64 := none
  isLoop : Bool := false

/-- A list of chains. -/
abbrev ChainForest := List ChainNode

namespace ChainNode

/-- The marker of a method that is its own ancestor. -/
def loopMarker (m : MethodRef) : ChainNode :=
  { service := m.1, method := m.2, isLoop := true }

/-- The method that a node stands for. -/
def ref (n : ChainNode) : MethodRef :=
  (n.service, n.method)

mutual

/-- The number of nodes of a tree. -/
def nodeCount : ChainNode → Nat
  | ⟨_, _, calls, _, _, _, _⟩ => 1 + nodeCounts calls

/-- The number of nodes of several trees. -/
def nodeCounts : List ChainNode → Nat
  | [] => 0
  | n :: ns => nodeCount n + nodeCounts ns

end

mutual

/-- The number of edges on the longest way down from the root. -/
def depth : ChainNode → Nat
  | ⟨_, _, calls, _, _, _, _⟩ => depths calls

/-- The number of edges on the longest way down from above several trees. -/
def depths : List ChainNode → Nat
  | [] => 0
  | n :: ns => max (depth n + 1) (depths ns)

end

end ChainNode

end ServiceChains
