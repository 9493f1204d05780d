import ServiceChains.Table
import ServiceChains.Template
import ServiceChains.Text.Blank
import ServiceChains.Text.Cursor
import ServiceChains.Verb

/-!
# Declared endpoints and catalogs

An endpoint is a route that a service declares: a verb, a path template and the method that handles
it. A catalog lists the endpoints of each service in the order in which they were found.
-/
namespace ServiceChains

/-- A route declared by a service. Its template has no slash at either end and is kept with its
compiled form. -/
structure Endpoint where
  /-- the declaring unit with its package -/
  unit : String
  /-- the name of the handler method -/
  method : String
  template : String
  verb : Verb
  marks : List Template.Mark
  compiled : Template.compile template = .ok marks

namespace Endpoint

/-- Declares a route, unless its template cannot be compiled. -/
def declare (unit method path : String) (verb : Verb) : Except ExtractionError Endpoint :=
  let template := Text.withoutOuterSlashes path
  match h : Template.compile template with
  | .ok marks => .ok ⟨unit, method, template, verb, marks, h⟩
  | .error e => .error e

/-- Does the template have a placeholder? -/
def isTemplated (e : Endpoint) : Bool :=
  e.template.toList.contains '{'

/-- The number of bytes before the first placeholder, or of the whole template. -/
def literalPrefixSize (e : Endpoint) : Nat :=
  Text.byteSize (e.template.toList.takeWhile (· != '{'))

/-- Does a path fit the template? -/
def accepts (e : Endpoint) (path : List Char) : Bool :=
  Template.accepts e.marks path

end Endpoint

/-- The endpoints of each service, in the order in which they were found. -/
structure Catalog where
  services : Table (List Endpoint) := []

namespace Catalog

/-- The endpoints of a service; none if the service is unknown. -/
def endpoints (c : Catalog) (service : String) : List Endpoint :=
  (c.services.get? service).getD []

/-- Adds one endpoint behind those of its service. -/
def push (c : Catalog) (service : String) (e : Endpoint) : Catalog :=
  ⟨Table.update service [] (· ++ [e]) c.services⟩

/-- Gives a service exactly these endpoints. -/
def insert (c : Catalog) (service : String) (es : List Endpoint) : Catalog :=
  ⟨c.services.put service es⟩

/-- The number of services. -/
def serviceCount (c : Catalog) : Nat :=
  c.services.length

/-- The number of endpoints of all services. -/
def endpointCount (c : Catalog) : Nat :=
  c.services.foldl (fun n entry => n + entry.2.length) 0

end Catalog

end ServiceChains
