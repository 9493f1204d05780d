import ServiceChains.CallSite
import ServiceChains.Json.Record
import ServiceChains.Table

/-!
# Interaction results

The interactions of services are their call sites, together with the relations between services: how
many calls lead from one service to another.
-/
namespace ServiceChains

/-- The number of calls from one service to another. -/
structure Relation where
  source : String
  target : String
  count : UInt64
  deriving DecidableEq, Repr

/-- Call sites and the relations that they make up. -/
structure InteractionResults where
  totalRelations : UInt64 := 0
  relations : List Relation := []
  interactions : List CallSite := []
  deriving DecidableEq, Repr

namespace InteractionResults

/-- The results of a list of call sites; relations in order of first occurrence. -/
def ofCallSites (sites : List CallSite) : InteractionResults :=
  let relations := (tally (sites.map fun site => (site.source, site.target))).map
    fun (pair, count) => ⟨pair.1, pair.2, count⟩
  ⟨UInt64.ofNat relations.length, relations, sites⟩

end InteractionResults

namespace CallSite

/-- The names of the fields of a call site in JSON. -/
def fieldNames : List String :=
  ["source", "source_method", "target", "endpoint", "http_method"]

def toJson (s : CallSite) : Json :=
  .object [Json.field "source" (.text s.source), Json.field "source_method" (.text s.method),
    Json.field "target" (.text s.target), Json.field "endpoint" (.text s.endpoint),
    Json.field "http_method" (.text s.verb.name)]

/-- Reads a call site; the verb may be missing. -/
def ofJson? (budget : Nat) (j : Json) : Option CallSite :=
  match budget, j.values? fieldNames with
  | budget + 1, some [source, method, target, endpoint, verb] => do
    return {
      source := ← Json.required? Json.text? source
      method := ← Json.required? Json.text? method
      target := ← Json.required? Json.text? target
      endpoint := ← Json.required? Json.text? endpoint
      verb := ← Json.defaulted? Verb.fallback (Json.verb? budget) verb }
  | _, _ => none

end CallSite

namespace Relation

def fieldNames : List String :=
  ["source", "target", "count"]

def toJson (r : Relation) : Json :=
  .object [Json.field "source" (.text r.source), Json.field "target" (.text r.target),
    Json.field "count" (.word r.count)]

def ofJson? (budget : Nat) (j : Json) : Option Relation :=
  match budget, j.values? fieldNames with
  | _ + 1, some [source, target, count] => do
    return {
      source := ← Json.required? Json.text? source
      target := ← Json.required? Json.text? target
      count := ← Json.required? Json.word? count }
  | _, _ => none

end Relation

namespace InteractionResults

def fieldNames : List String :=
  ["total_relations", "relations", "api_interactions"]

def toJson (r : InteractionResults) : Json :=
  .object [Json.field "total_relations" (.word r.totalRelations),
    Json.field "relations" (.array (r.relations.map Relation.toJson)),
    Json.field "api_interactions" (.array (r.interactions.map CallSite.toJson))]

/-- Reads a list, each item with the budget left inside. -/
def listOf? {α : Type} (budget : Nat) (read : Nat → Json → Option α) (j : Json) :
    Option (List α) := do
  let (budget, items) ← j.items? budget
  items.mapM (read budget)

def ofJson? (budget : Nat) (j : Json) : Option InteractionResults :=
  match budget, j.values? fieldNames with
  | budget + 1, some [total, relations, interactions] => do
    return {
      totalRelations := ← Json.required? Json.word? total
      relations := ← Json.required? (listOf? budget Relation.ofJson?) relations
      interactions := ← Json.required? (listOf? budget CallSite.ofJson?) interactions }
  | _, _ => none

end InteractionResults

end ServiceChains
