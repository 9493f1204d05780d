import Mathlib
import ServiceChains.Proofs.Sorting
import ServiceChains.Reachability

/-!
# Reachable methods are a closure

The search keeps the methods that it has seen and the names that are still to be looked at. Whatever
a seen method calls is seen or still to be looked at, so that in the end the seen methods are closed
under calls; and nothing is seen that the start does not reach. Calls count between declared methods
only, and the order in which a graph was put together does not matter.
-/
namespace ServiceChains

theorem mem_insertNew {α : Type} [DecidableEq α] {x y : α} {xs : List α} :
    x ∈ insertNew y xs ↔ x ∈ xs ∨ x = y := by
  unfold insertNew
  split_ifs with h
  · constructor
    · exact .inl
    · rintro (hx | rfl)
      · exact hx
      · exact h
  · simp

theorem nodup_insertNew {α : Type} [DecidableEq α] {xs : List α} (h : xs.Nodup) (x : α) :
    (insertNew x xs).Nodup := by
  unfold insertNew
  split_ifs with hx
  · exact h
  · rw [← List.concat_eq_append]
    exact h.concat hx

theorem sortStrings_eq_of_mem_iff {xs ys : List String} (hx : xs.Nodup) (hy : ys.Nodup)
    (hmem : ∀ x, x ∈ xs ↔ x ∈ ys) : sortStrings xs = sortStrings ys :=
  sortStrings_eq_iff.mpr ((List.perm_ext_iff_of_nodup hx hy).mpr hmem)

namespace CallGraph

variable (g : CallGraph)

/-- One declared method calls another. -/
def Calls (a b : String) : Prop :=
  a ∈ g.methods ∧ b ∈ g.methods ∧ (a, b) ∈ g.edges

theorem mem_callees {a b : String} : b ∈ g.callees a ↔ (a, b) ∈ g.edges := by
  simp only [callees, List.mem_filterMap, Option.ite_none_right_eq_some, Option.some.injEq]
  constructor
  · rintro ⟨⟨_, _⟩, hmem, rfl, rfl⟩
    exact hmem
  · intro hmem
    exact ⟨(a, b), hmem, rfl, rfl⟩

/-- Whatever is visited was seen before or is reached from a declared name that was to be visited. -/
theorem reaches_of_mem_visit {seen todo : List String} {x : String} (h : x ∈ g.visit seen todo) :
    x ∈ seen ∨ ∃ n ∈ todo, n ∈ g.methods ∧ Relation.ReflTransGen g.Calls n x := by
  fun_induction g.visit seen todo with
  | case1 seen => exact .inl h
  | case2 seen name rest hnew ih =>
    rcases ih h with hseen | ⟨n, hn, hdeclared, hpath⟩
    · rcases List.mem_cons.mp hseen with rfl | hseen
      · exact .inr ⟨x, by simp, hnew.1, .refl⟩
      · exact .inl hseen
    · rcases List.mem_append.mp hn with hcallee | hrest
      · have hcall : g.Calls name n := ⟨hnew.1, hdeclared, g.mem_callees.mp hcallee⟩
        exact .inr ⟨name, by simp, hnew.1, hpath.head hcall⟩
      · exact .inr ⟨n, by simp [hrest], hdeclared, hpath⟩
  | case3 seen name rest hold ih =>
    rcases ih h with hseen | ⟨n, hn, hdeclared, hpath⟩
    · exact .inl hseen
    · exact .inr ⟨n, by simp [hn], hdeclared, hpath⟩

theorem mem_visit_of_mem_seen {seen todo : List String} {x : String} (h : x ∈ seen) :
    x ∈ g.visit seen todo := by
  fun_induction g.visit seen todo with
  | case1 seen => exact h
  | case2 seen name rest hnew ih => exact ih (List.mem_cons_of_mem _ h)
  | case3 seen name rest hold ih => exact ih h

theorem mem_visit_of_mem_todo {seen todo : List String} {x : String} (h : x ∈ todo)
    (hx : x ∈ g.methods) : x ∈ g.visit seen todo := by
  fun_induction g.visit seen todo with
  | case1 seen => cases h
  | case2 seen name rest hnew ih =>
    rcases List.mem_cons.mp h with rfl | h
    · exact g.mem_visit_of_mem_seen (by simp)
    · exact ih (List.mem_append_right _ h)
  | case3 seen name rest hold ih =>
    rcases List.mem_cons.mp h with rfl | h
    · have hseen : x ∈ seen := by
        by_contra hnot
        exact hold ⟨hx, hnot⟩
      exact g.mem_visit_of_mem_seen hseen
    · exact ih h

/-- Nothing that a seen method calls is forgotten, so what is visited is closed under calls. -/
theorem visit_closed {seen todo : List String}
    (inv : ∀ a ∈ seen, ∀ b, g.Calls a b → b ∈ seen ∨ b ∈ todo) {a b : String}
    (ha : a ∈ g.visit seen todo) (hcall : g.Calls a b) : b ∈ g.visit seen todo := by
  fun_induction g.visit seen todo with
  | case1 seen =>
    rcases inv a ha b hcall with hb | hb
    · exact hb
    · cases hb
  | case2 seen name rest hnew ih =>
    apply ih _ ha
    intro c hc d hcd
    rcases List.mem_cons.mp hc with rfl | hc
    · exact .inr (List.mem_append_left _ (g.mem_callees.mpr hcd.2.2))
    · rcases inv c hc d hcd with hd | hd
      · exact .inl (List.mem_cons_of_mem _ hd)
      · rcases List.mem_cons.mp hd with rfl | hd
        · exact .inl (by simp)
        · exact .inr (List.mem_append_right _ hd)
  | case3 seen name rest hold ih =>
    apply ih _ ha
    intro c hc d hcd
    rcases inv c hc d hcd with hd | hd
    · exact .inl hd
    · rcases List.mem_cons.mp hd with rfl | hd
      · have hseen : d ∈ seen := by
          by_contra hnot
          exact hold ⟨hcd.2.1, hnot⟩
        exact .inl hseen
      · exact .inr hd

/-- A declared method reaches exactly the methods at the end of its calls. -/
theorem mem_reachable_iff {m x : String} (hm : m ∈ g.methods) :
    x ∈ (g.reachable m).names ↔ Relation.ReflTransGen g.Calls m x := by
  rw [reachable, (sortStrings_perm _).mem_iff]
  constructor
  · intro h
    rcases g.reaches_of_mem_visit h with hseen | ⟨n, hn, _, hpath⟩
    · cases hseen
    · rwa [List.mem_singleton.mp hn] at hpath
  · intro h
    induction h with
    | refl => exact g.mem_visit_of_mem_todo (by simp) hm
    | tail _ hcall ih =>
      refine g.visit_closed ?_ ih hcall
      intro a ha
      cases ha

theorem get?_resolve (m : String) :
    g.resolve.get? m = if m ∈ g.methods then some (g.reachable m) else none := by
  rw [resolve, Table.get?_map_self]
  simp only [(sortStrings_perm _).mem_iff]

theorem map_fst_resolve : g.resolve.map (·.1) = sortStrings g.methods := by
  rw [resolve, List.map_map]
  exact List.map_id _

variable {g} {h : CallGraph}

theorem reachable_congr {m : String} (hg : m ∈ g.methods) (hh : m ∈ h.methods)
    (hcalls : g.Calls = h.Calls) : g.reachable m = h.reachable m := by
  have hmem : ∀ x, x ∈ g.visit [] [m] ↔ x ∈ h.visit [] [m] := by
    intro x
    have hx := g.mem_reachable_iff (x := x) hg
    rw [hcalls, ← h.mem_reachable_iff hh] at hx
    simpa only [reachable, (sortStrings_perm _).mem_iff] using hx
  have hnames := sortStrings_eq_of_mem_iff (g.nodup_visit [] [m] List.nodup_nil)
    (h.nodup_visit [] [m] List.nodup_nil) hmem
  simp only [reachable, hnames]

/-- What is reachable depends on the declared methods and the calls between them only. -/
theorem resolve_congr (hg : g.methods.Nodup) (hh : h.methods.Nodup)
    (hmethods : ∀ m, m ∈ g.methods ↔ m ∈ h.methods) (hcalls : g.Calls = h.Calls) :
    g.resolve = h.resolve := by
  rw [resolve, resolve, sortStrings_eq_of_mem_iff hg hh hmethods]
  apply List.map_congr_left
  intro m hm
  have hmh : m ∈ h.methods := (sortStrings_perm _).mem_iff.mp hm
  rw [reachable_congr ((hmethods m).mpr hmh) hmh hcalls]

end CallGraph

/-- In an index of call graphs every method reaches itself, known or not. -/
theorem ReachableIndex.mem_reachableOrSelf_resolve (graphs : Table CallGraph)
    (service m : String) : m ∈ (ReachableIndex.resolve graphs).reachableOrSelf service m := by
  have hget : ∀ set, (ReachableIndex.resolve graphs).get? service m = some set →
      m ∈ set.names := by
    intro set h
    simp only [ReachableIndex.get?, ReachableIndex.resolve, Table.get?_map] at h
    obtain ⟨table, htable, hset⟩ := Option.bind_eq_some_iff.mp h
    obtain ⟨g, _, rfl⟩ := Option.map_eq_some_iff.mp htable
    rw [CallGraph.get?_resolve] at hset
    split_ifs at hset with hm
    cases hset
    exact (g.mem_reachable_iff hm).mpr .refl
  unfold reachableOrSelf
  split
  · next set h => exact hget set h
  · simp

/-- One thing that is put into a call graph. -/
inductive Addition where
  | method (name : String)
  | call (caller callee : String)
  deriving DecidableEq, Repr

namespace Addition

/-- Is it a method, or a call between methods that the list declares? -/
def isInside (additions : List Addition) : Addition → Bool
  | method _ => true
  | call caller callee => method caller ∈ additions ∧ method callee ∈ additions

end Addition

namespace CallGraph

/-- Puts one thing into a graph. -/
def add (g : CallGraph) : Addition → CallGraph
  | .method name => g.addMethod name
  | .call caller callee => g.addCall caller callee

/-- The graph that is put together from a list of additions. -/
def ofAdditions (additions : List Addition) : CallGraph :=
  additions.foldl add {}

theorem ofAdditions_concat (additions : List Addition) (a : Addition) :
    ofAdditions (additions ++ [a]) = (ofAdditions additions).add a := by
  rw [ofAdditions, List.foldl_append]
  rfl

theorem mem_methods_ofAdditions {additions : List Addition} {m : String} :
    m ∈ (ofAdditions additions).methods ↔ .method m ∈ additions := by
  induction additions using List.reverseRecOn with
  | nil => simp [ofAdditions]
  | append_singleton additions a ih =>
    rw [ofAdditions_concat]
    cases a with
    | method name => simp [add, addMethod, mem_insertNew, ih]
    | call caller callee => simp [add, addCall, ih]

theorem mem_edges_ofAdditions {additions : List Addition} {a b : String} :
    (a, b) ∈ (ofAdditions additions).edges ↔ .call a b ∈ additions := by
  induction additions using List.reverseRecOn with
  | nil => simp [ofAdditions]
  | append_singleton additions x ih =>
    rw [ofAdditions_concat]
    cases x with
    | method name => simp [add, addMethod, ih]
    | call caller callee => simp [add, addCall, mem_insertNew, ih]

theorem nodup_methods_ofAdditions (additions : List Addition) :
    (ofAdditions additions).methods.Nodup := by
  induction additions using List.reverseRecOn with
  | nil => exact List.nodup_nil
  | append_singleton additions a ih =>
    rw [ofAdditions_concat]
    cases a with
    | method name => exact nodup_insertNew ih name
    | call caller callee => exact ih

theorem calls_ofAdditions (additions : List Addition) :
    (ofAdditions additions).Calls = fun a b =>
      .method a ∈ additions ∧ .method b ∈ additions ∧ .call a b ∈ additions := by
  funext a b
  simp only [Calls, mem_methods_ofAdditions, mem_edges_ofAdditions]

/-- Two lists of additions that declare the same methods and agree on the calls between them give the
same reachable methods. -/
theorem resolve_ofAdditions_congr {additions others : List Addition}
    (hmethods : ∀ m, Addition.method m ∈ additions ↔ .method m ∈ others)
    (hcalls : ∀ a b, Addition.method a ∈ others → Addition.method b ∈ others →
      (Addition.call a b ∈ additions ↔ .call a b ∈ others)) :
    (ofAdditions additions).resolve = (ofAdditions others).resolve := by
  apply resolve_congr (nodup_methods_ofAdditions _) (nodup_methods_ofAdditions _)
  · intro m
    rw [mem_methods_ofAdditions, mem_methods_ofAdditions, hmethods]
  · rw [calls_ofAdditions, calls_ofAdditions]
    funext a b
    simp only [hmethods]
    apply propext
    constructor
    · rintro ⟨ha, hb, hab⟩
      exact ⟨ha, hb, (hcalls a b ha hb).mp hab⟩
    · rintro ⟨ha, hb, hab⟩
      exact ⟨ha, hb, (hcalls a b ha hb).mpr hab⟩

/-- The methods that are listed for a declared method, itself among them, are those at the end of its
calls, all between declared methods. No other method is listed for; calls of or from undeclared
names, the order of the additions and repetitions do not matter. So in an index every method of
every service reaches itself. -/
theorem resolve_closes_calls (additions : List Addition) (graphs : Table CallGraph) :
    let resolved := (ofAdditions additions).resolve
    let declared := fun m => Addition.method m ∈ additions
    let step := fun a b => declared a ∧ declared b ∧ Addition.call a b ∈ additions
    (resolved.map (·.1)).Nodup ∧ (∀ m, m ∈ resolved.map (·.1) ↔ declared m) ∧
    (∀ m, declared m → ∃ set, resolved.get? m = some set ∧
      ∀ x, x ∈ set.names ↔ Relation.ReflTransGen step m x) ∧
    (ofAdditions (additions.filter (Addition.isInside additions))).resolve = resolved ∧
    (∀ others, (∀ a, a ∈ others ↔ a ∈ additions) → (ofAdditions others).resolve = resolved) ∧
    (∀ service m, m ∈ (ReachableIndex.resolve graphs).reachableOrSelf service m) := by
  intro resolved declared step
  refine ⟨?_, ?_, ?_, ?_, ?_, ?_⟩
  · rw [map_fst_resolve]
    exact nodup_sortStrings (nodup_methods_ofAdditions additions)
  · intro m
    rw [map_fst_resolve, (sortStrings_perm _).mem_iff]
    exact mem_methods_ofAdditions
  · intro m hm
    have hmethod := mem_methods_ofAdditions.mpr hm
    refine ⟨_, by rw [get?_resolve, if_pos hmethod], ?_⟩
    intro x
    rw [mem_reachable_iff _ hmethod, calls_ofAdditions]
  · apply resolve_ofAdditions_congr
    · intro m
      simp [Addition.isInside]
    · intro a b ha hb
      simp [Addition.isInside, ha, hb]
  · intro others hsame
    apply resolve_ofAdditions_congr
    · intro m
      exact hsame _
    · intro a b _ _
      exact hsame _
  · intro service m
    exact ReachableIndex.mem_reachableOrSelf_resolve graphs service m

/-- Two methods that call each other, with a third one behind an undeclared name. -/
def detour : List Addition :=
  [.call "a" "b", .method "a", .call "b" "a", .method "b", .method "c", .call "a" "x",
    .call "x" "c", .method "a"]

/-- The detour over the undeclared name leads nowhere. -/
theorem resolve_closes_calls_detour :
    let step := fun a b =>
      Addition.method a ∈ detour ∧ Addition.method b ∈ detour ∧ Addition.call a b ∈ detour
    Addition.method "a" ∈ detour ∧
      ((ofAdditions detour).resolve.get? "a").map (·.names) = some ["a", "b"] ∧
      ∀ x, x ∈ ["a", "b"] ↔ Relation.ReflTransGen step "a" x := by
  intro step
  have hnames : ((ofAdditions detour).resolve.get? "a").map (·.names) = some ["a", "b"] := by cbv
  obtain ⟨_, _, hset, _, _, _⟩ := resolve_closes_calls detour []
  obtain ⟨set, hget, hmem⟩ := hset "a" (by decide)
  have hlist : set.names = ["a", "b"] := by
    rw [hget] at hnames
    exact Option.some.inj hnames
  exact ⟨by decide, hnames, hlist ▸ hmem⟩

end CallGraph

end ServiceChains
