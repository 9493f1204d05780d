import ServiceChains.Chain.Node
import ServiceChains.Json.Record

/-!
# Chains in JSON

A node is an object. Path, verb and count are left out where they are absent. A loop marker has the
field `loop` and no calls; every other node has its calls and no such field. All fields but the
first two may be missing where a node is read.
-/
namespace ServiceChains.ChainNode

/-- The names of the fields of a node in JSON. -/
def fieldNames : List String :=
  ["service", "method", "calls", "endpoint", "http_method", "count", "loop"]

mutual

def toJson : ChainNode → Json
  | ⟨service, method, calls, endpoint, verb, count, isLoop⟩ =>
    .object (
      [Json.field "service" (.text service), Json.field "method" (.text method)] ++
      (if isLoop then [] else [Json.field "calls" (.array (toJsons calls))]) ++
      Json.field? "endpoint" (endpoint.map Json.text) ++
      Json.field? "http_method" (verb.map fun v => Json.text v.name) ++
      Json.field? "count" (count.map Json.word) ++
      (if isLoop then [Json.field "loop" (.bool true)] else []))

def toJsons : List ChainNode → List Json
  | [] => []
  | n :: ns => toJson n :: toJsons ns

end

/-- Reads a node; each level of arrays and objects takes one from the budget. -/
def ofJson? : Nat → Json → Option ChainNode
  | 0, _ => none
  | budget + 1, j =>
    match j.values? fieldNames with
    | some [service, method, calls, endpoint, verb, count, isLoop] => do
      return {
        service := ← Json.required? Json.text? service
        method := ← Json.required? Json.text? method
        calls := ← match budget, calls with
          | _, none => some []
          | budget + 1, some (.array items) => items.mapM (ofJson? budget)
          | _, some _ => none
        endpoint := ← Json.defaulted? none (Json.nullable? Json.text?) endpoint
        verb := ← Json.defaulted? none (Json.nullable? (Json.verb? budget)) verb
        count := ← Json.defaulted? none (Json.nullable? Json.word?) count
        isLoop := ← Json.defaulted? false Json.bool? isLoop }
    | _ => none

end ServiceChains.ChainNode

namespace ServiceChains.ChainForest

def toJson (f : ChainForest) : Json :=
  .array (ChainNode.toJsons f)

def ofJson? (budget : Nat) (j : Json) : Option ChainForest := do
  let (budget, items) ← j.items? budget
  items.mapM (ChainNode.ofJson? budget)

end ServiceChains.ChainForest
