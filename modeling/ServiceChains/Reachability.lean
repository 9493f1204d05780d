import ServiceChains.CallGraph

/-!
# Reachable methods

A method reaches itself and whatever the methods that it calls reach. Only declared methods count: a
call of or from any other name leads nowhere. An index keeps the reachable methods of every service
as sets: no method is listed twice for another.
-/
namespace ServiceChains

/-- Fewer items pass a stricter test once one of them fails it. -/
theorem length_filter_lt {α : Type} {p q : α → Bool} {xs : List α} {x : α} (hx : x ∈ xs)
    (hpq : ∀ y, q y = true → p y = true) (hp : p x = true) (hq : q x = false) :
    (xs.filter q).length < (xs.filter p).length := by
  have le : ∀ ys : List α, (ys.filter q).length ≤ (ys.filter p).length := by
    intro ys
    induction ys with
    | nil => simp
    | cons y ys ih =>
      cases hy : q y with
      | false => cases hz : p y <;> simp [hy, hz] <;> omega
      | true => simp [hy, hpq y hy, ih]
  induction xs with
  | nil => simp at hx
  | cons y ys ih =>
    rcases List.mem_cons.mp hx with rfl | hx
    · simpa [hp, hq] using Nat.lt_succ_of_le (le ys)
    · have := ih hx
      cases hy : q y with
      | false => cases hz : p y <;> simp [hy, hz] <;> omega
      | true => simp [hy, hpq y hy, this]

/-- Names of methods, each of them once. -/
structure MethodSet where
  names : List String
  nodup : names.Nodup

namespace CallGraph

/-- Visits the names in `todo` and whatever they lead to; `seen` holds the methods visited before.
-/
def visit (g : CallGraph) (seen todo : List String) : List String :=
  match todo with
  | [] => seen
  | name :: rest =>
    if _h : name ∈ g.methods ∧ name ∉ seen then
      g.visit (name :: seen) (g.callees name ++ rest)
    else g.visit seen rest
termination_by ((g.methods.filter (· ∉ seen)).length, todo.length)
decreasing_by
  · apply Prod.Lex.left
    exact length_filter_lt _h.1 (by simp_all) (by simpa using _h.2) (by simp)
  · apply Prod.Lex.right
    simp

/-- No method is visited twice. -/
theorem nodup_visit (g : CallGraph) (seen todo : List String) (h : seen.Nodup) :
    (g.visit seen todo).Nodup := by
  fun_induction g.visit seen todo with
  | case1 seen => exact h
  | case2 seen name rest hnew ih => exact ih (List.nodup_cons.mpr ⟨hnew.2, h⟩)
  | case3 seen name rest hold ih => exact ih h

/-- The methods that a method reaches, in increasing order. -/
def reachable (g : CallGraph) (method : String) : MethodSet where
  names := sortStrings (g.visit [] [method])
  nodup := nodup_sortStrings (g.nodup_visit [] [method] List.nodup_nil)

/-- The reachable methods of every declared method. -/
def resolve (g : CallGraph) : Table MethodSet :=
  (sortStrings g.methods).map fun m => (m, g.reachable m)

end CallGraph

/-- The reachable methods of each method of each service. -/
structure ReachableIndex where
  services : Table (Table MethodSet) := []

namespace ReachableIndex

/-- Gives a service these reachable methods. -/
def insert (r : ReachableIndex) (service : String) (methods : Table MethodSet) : ReachableIndex :=
  ⟨r.services.put service methods⟩

/-- The index of several call graphs. -/
def resolve (graphs : Table CallGraph) : ReachableIndex :=
  ⟨graphs.map fun (service, g) => (service, g.resolve)⟩

/-- The reachable methods of a method, if the service and the method are known. -/
def get? (r : ReachableIndex) (service method : String) : Option MethodSet :=
  (r.services.get? service).bind (·.get? method)

/-- The reachable methods of a method, or the method alone if it is unknown. -/
def reachableOrSelf (r : ReachableIndex) (service method : String) : List String :=
  match r.get? service method with
  | some methods => methods.names
  | none => [method]

theorem nodup_reachableOrSelf (r : ReachableIndex) (service method : String) :
    (r.reachableOrSelf service method).Nodup := by
  unfold reachableOrSelf
  split
  · next methods _ => exact methods.nodup
  · simp

/-- The number of services. -/
def serviceCount (r : ReachableIndex) : Nat :=
  r.services.length

end ReachableIndex

end ServiceChains
