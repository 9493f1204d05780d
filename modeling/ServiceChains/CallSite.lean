import ServiceChains.Verb

/-!
# Call sites

A call site is one HTTP call found in a source: which service makes it, in which method, to which
service, with which path and verb. The path is as written there and may be the beginning of one
only.
-/
namespace ServiceChains

/-- The word that stands for a method or a path that could not be determined. -/
def unknownName : String :=
  "unknown"

/-- One outbound call. -/
structure CallSite where
  source : String
  /-- package, unit and method of the caller, joined by dots -/
  method : String
  target : String
  endpoint : String
  verb : Verb
  deriving DecidableEq, Repr

/-- What follows the last dot of a text, or the whole text. -/
def afterLastDot (s : String) : String :=
  String.ofList (s.toList.reverse.takeWhile (· != '.')).reverse

namespace CallSite

/-- The name of the calling method without package and unit. -/
def bareMethod (s : CallSite) : String :=
  afterLastDot s.method

end CallSite

end ServiceChains
