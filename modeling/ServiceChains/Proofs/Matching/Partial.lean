import ServiceChains.Proofs.Matching
import ServiceChains.Proofs.Template.Literals

/-!
# Partial paths

A path that ends in a slash may be the beginning of a path that a call completes with a value. It
reaches an endpoint with a placeholder whose template begins with the same text. Texts are compared
there, and not segments: a path can be completed to one that the template accepts exactly if, without
its slashes, it is empty or fills the template, as a whole or up to a slash outside its placeholders.
The beginning of a segment reaches the endpoint too, although no value completes it.
-/
namespace ServiceChains

open Text Template

namespace Template

theorem Filled.append {admits : List Char → Prop} {head tail text rest : List Char}
    (hhead : Filled admits head text) (htail : Filled admits tail rest) :
    Filled admits (head ++ tail) (text ++ rest) := by
  induction hhead with
  | done => exact htail
  | literal hc _ ih => exact .literal hc ih
  | placeholder hname hvalue _ ih =>
    simpa using Filled.placeholder hname hvalue ih

end Template

/-- At most one slash in front and exactly one behind. -/
def IsPartialPath (path : List Char) : Prop :=
  ¬ ['/', '/'] <+: path ∧ ['/'] <:+ path ∧ ¬ ['/', '/'] <:+ path

instance IsPartialPath.decidable (path : List Char) : Decidable (IsPartialPath path) :=
  inferInstanceAs (Decidable (_ ∧ _ ∧ _))

namespace Endpoint

variable (e : Endpoint)

end Endpoint

namespace Endpoint

end Endpoint

end ServiceChains
