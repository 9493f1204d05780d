import ServiceChains.Endpoint
import ServiceChains.Source.Mapping

/-!
# Routes of source files

A source file whose name ends in the endpoint suffix declares the endpoints of its mapping
annotations. Declarations whose template cannot be compiled are reported and left out.
-/
namespace ServiceChains.Source

/-- The name of the way in which routes and calls are recognised. -/
def strategyName : String :=
  "spring-regex"

/-- Does a file with this name declare endpoints? -/
def declaresEndpoints (suffix fileName : String) : Bool :=
  suffix.toList.isSuffixOf fileName.toList

/-- Sorts declarations into endpoints and errors, both in order. -/
def declareAll : List Declaration → List Endpoint × List ExtractionError
  | [] => ([], [])
  | d :: ds =>
    let (endpoints, errors) := declareAll ds
    match Endpoint.declare d.unit d.method d.path d.verb with
    | .ok e => (e :: endpoints, errors)
    | .error e => (endpoints, e :: errors)

/-- The endpoints that a source file declares, and the errors in its declarations. -/
def endpoints (suffix fileName : String) (source : List Char) :
    List Endpoint × List ExtractionError :=
  if declaresEndpoints suffix fileName then declareAll (declarations fileName source) else ([], [])

end ServiceChains.Source
