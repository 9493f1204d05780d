import ServiceChains.Source.Method
import ServiceChains.Table

/-!
# Call graphs of services

The call graph of a service has the methods that its sources declare and an edge from a method to
each name that its body calls. Methods are told apart by name only. An edge may lead to a name that
the service does not declare, or come from one.
-/
namespace ServiceChains

/-- The methods of a service and the calls between names, without repeats. -/
structure CallGraph where
  methods : List String := []
  edges : List (String × String) := []
  deriving DecidableEq, Repr

namespace CallGraph

/-- Declares a method. -/
def addMethod (g : CallGraph) (name : String) : CallGraph :=
  { g with methods := insertNew name g.methods }

/-- Adds a call of `callee` from `caller`. -/
def addCall (g : CallGraph) (caller callee : String) : CallGraph :=
  { g with edges := insertNew (caller, callee) g.edges }

/-- The names called from a name. -/
def callees (g : CallGraph) (caller : String) : List String :=
  g.edges.filterMap fun e => if e.1 = caller then some e.2 else none

/-- Is the method declared? -/
def declares (g : CallGraph) (name : String) : Bool :=
  g.methods.contains name

/-- The number of declared methods. -/
def methodCount (g : CallGraph) : Nat :=
  g.methods.length

/-- The number of calls, whatever their ends. -/
def edgeCount (g : CallGraph) : Nat :=
  g.edges.length

/-- Declares a method and adds the calls of its body. -/
def addBody (g : CallGraph) (name : String) (body : List Char) : CallGraph :=
  (Source.calls body).foldl (fun g callee => g.addCall name callee) (g.addMethod name)

/-- Adds the methods of a source text and their calls. A body that does not fall between characters
contributes none. -/
def addSource (g : CallGraph) (source : List Char) : CallGraph :=
  (Source.methods source).foldl
    (fun g m => g.addBody m.name ((Text.slice? m.start m.stop source).getD [])) g

end CallGraph

end ServiceChains
