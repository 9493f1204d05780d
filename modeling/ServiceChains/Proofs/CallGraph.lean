import ServiceChains.Proofs.Reachability

/-!
# Calls of the sources of a service

The methods of a call graph to which a source text is added are the earlier ones and those of the
text; its edges are the earlier ones and one for each call in the body of a method. A graph that
grows keeps its methods, and an index lists every method of its graphs.
-/
namespace ServiceChains

/-- What some steps of a fold bring about and no step takes away holds in the end if it held before
or if one of the steps brings it about. -/
theorem foldl_iff_exists {α β : Type} {p : β → Prop} {q : α → Prop} {step : β → α → β}
    (hstep : ∀ b x, p (step b x) ↔ p b ∨ q x) (b : β) (xs : List α) :
    p (xs.foldl step b) ↔ p b ∨ ∃ x ∈ xs, q x := by
  induction xs generalizing b with
  | nil => simp
  | cons x xs ih => rw [List.foldl_cons, ih, hstep, List.exists_mem_cons_iff, or_assoc]

namespace CallGraph

variable (g : CallGraph)

theorem mem_methods_addBody {name m : String} {body : List Char} :
    m ∈ (g.addBody name body).methods ↔ m ∈ g.methods ∨ m = name := by
  have hfold : ∀ (callees : List String) (g : CallGraph),
      (callees.foldl (fun g callee => g.addCall name callee) g).methods = g.methods := by
    intro callees
    induction callees with
    | nil => simp
    | cons callee callees ih =>
      intro g
      rw [List.foldl_cons, ih, addCall]
  rw [addBody, hfold, addMethod, mem_insertNew]

/-- The methods of a source text are declared, and no others. -/
theorem mem_methods_addSource {source : List Char} {m : String} :
    m ∈ (g.addSource source).methods ↔
      m ∈ g.methods ∨ ∃ span ∈ Source.methods source, m = span.name := by
  unfold addSource
  apply foldl_iff_exists (p := fun g : CallGraph => m ∈ g.methods)
  intro g span
  exact g.mem_methods_addBody

theorem mem_edges_addBody {name : String} {body : List Char} {e : String × String} :
    e ∈ (g.addBody name body).edges ↔ e ∈ g.edges ∨ e.1 = name ∧ e.2 ∈ Source.calls body := by
  have hcalls : (∃ callee ∈ Source.calls body, e = (name, callee)) ↔
      e.1 = name ∧ e.2 ∈ Source.calls body := by
    simp [Prod.ext_iff, and_left_comm]
  have hstep (g : CallGraph) (callee : String) :
      e ∈ (g.addCall name callee).edges ↔ e ∈ g.edges ∨ e = (name, callee) := mem_insertNew
  rw [← hcalls]
  exact foldl_iff_exists (p := fun g : CallGraph => e ∈ g.edges) hstep (g.addMethod name) _

/-- The calls of a source text are those in the bodies of its methods. -/
theorem mem_edges_addSource {source : List Char} {e : String × String} :
    e ∈ (g.addSource source).edges ↔ e ∈ g.edges ∨ ∃ m ∈ Source.methods source,
      e.1 = m.name ∧ e.2 ∈ Source.calls ((Text.slice? m.start m.stop source).getD []) := by
  unfold addSource
  apply foldl_iff_exists (p := fun g : CallGraph => e ∈ g.edges)
  intro g m
  exact g.mem_edges_addBody

/-- The second graph comes from the first by declaring methods, adding calls and adding sources. -/
inductive Grows (g : CallGraph) : CallGraph → Prop where
  | refl : Grows g g
  | method {h : CallGraph} (name : String) : Grows g h → Grows g (h.addMethod name)
  | call {h : CallGraph} (caller callee : String) : Grows g h → Grows g (h.addCall caller callee)
  | source {h : CallGraph} (text : List Char) : Grows g h → Grows g (h.addSource text)

/-- A graph that grows keeps its methods. -/
theorem Grows.mem_methods {g h : CallGraph} (hgrows : g.Grows h) {m : String}
    (hm : m ∈ g.methods) : m ∈ h.methods := by
  induction hgrows with
  | refl => exact hm
  | method name _ ih => exact mem_insertNew.mpr (.inl ih)
  | call caller callee _ ih => exact ih
  | source text _ ih => exact (mem_methods_addSource _).mpr (.inl ih)

end CallGraph

/-- An index lists every method of its graphs, with a set that contains it. -/
theorem ReachableIndex.exists_get?_resolve {graphs : Table CallGraph} {service m : String}
    {g : CallGraph} (hg : graphs.get? service = some g) (hm : m ∈ g.methods) :
    ∃ set, (ReachableIndex.resolve graphs).get? service m = some set ∧ m ∈ set.names := by
  refine ⟨g.reachable m, ?_, (g.mem_reachable_iff hm).mpr .refl⟩
  simp only [ReachableIndex.get?, ReachableIndex.resolve, Table.get?_map, hg, Option.map_some,
    Option.bind_some, CallGraph.get?_resolve, if_pos hm]

end ServiceChains
