import ServiceChains.Proofs.Chain.Calls

/-!
# The methods of a traced chain

A branch is cut at the first method that repeats. Nothing is lost behind the cut: a walk from one
method to another can be shortened until it meets no method twice, and the tree unfolds all such
walks. So a chain holds exactly the methods that can be reached from its root, and follows each of
them somewhere.
-/
namespace ServiceChains

namespace ChainNode

/-- The tree has a node of the method that is no loop marker. -/
def Follows (root : ChainNode) (m : MethodRef) : Prop :=
  ∃ above n, root.Occurs above n ∧ n.ref = m ∧ n.isLoop = false

theorem follows_iff (root : ChainNode) (m : MethodRef) :
    root.Follows m ↔ (root.ref = m ∧ root.isLoop = false) ∨ ∃ c ∈ root.calls, c.Follows m := by
  constructor
  · rintro ⟨above, n, hocc, href, hloop⟩
    rcases hocc.eq_root_or_below with rfl | ⟨c, hc, above', hbelow⟩
    · exact .inl ⟨href, hloop⟩
    · exact .inr ⟨c, hc, above', n, hbelow, href, hloop⟩
  · rintro (⟨href, hloop⟩ | ⟨c, hc, above, n, hocc, href, hloop⟩)
    · exact ⟨[], root, .root, href, hloop⟩
    · exact ⟨above ++ [root], n, hocc.of_call hc, href, hloop⟩

theorem follows_bare (root : ChainNode) (m : MethodRef) : root.bare.Follows m ↔ root.Follows m := by
  rw [follows_iff, follows_iff root]
  rfl

end ChainNode

/-- A walk around `avoided` leaves its first vertex for the last time: it ends there, or from the
next step on it goes around that vertex as well. -/
theorem reflTransGen_last_exit {α : Type} {step : α → α → Prop} {avoided : List α} {a b : α}
    (h : Relation.ReflTransGen (fun x y => step x y ∧ y ∉ avoided) a b) :
    b = a ∨ ∃ c, step a c ∧ c ∉ a :: avoided ∧
      Relation.ReflTransGen (fun x y => step x y ∧ y ∉ a :: avoided) c b := by
  induction h with
  | refl => exact .inl rfl
  | @tail b d _ hstep ih =>
    by_cases hd : d = a
    · exact .inl hd
    have hnot : d ∉ a :: avoided := by simp [hd, hstep.2]
    rcases ih with rfl | ⟨c, hac, hc, hcb⟩
    · exact .inr ⟨d, hstep.1, hnot, .refl⟩
    · exact .inr ⟨c, hac, hc, hcb.tail ⟨hstep.1, hnot⟩⟩

namespace Tracer

open ChainNode

section

variable (t : Tracer)

/-- Some branch of the first method ends at the second. -/
def LeadsTo (m m' : MethodRef) : Prop :=
  ∃ branch ∈ t.branches m, branch.1.ref = m'

/-- Tracing as an induction: a method that is on the branch is not followed, any other one is traced
through its branches. -/
theorem traceBelow_induction {P : List MethodRef → MethodRef → Prop}
    (marked : ∀ path m, m ∈ path → P path m)
    (followed : ∀ path m, m ∉ path → (∀ branch ∈ t.branches m, P (m :: path) branch.1.ref) →
      P path m) (path : List MethodRef) (m : MethodRef) : P path m := by
  induction hdepth : (t.traceBelow path m).depth using Nat.strongRecOn generalizing path m with
  | ind depth ih =>
    by_cases hm : m ∈ path
    · exact marked path m hm
    apply followed path m hm
    intro branch hbranch
    have hlt := t.depth_traceBelow_lt hm hbranch
    exact ih _ (by omega) (m :: path) branch.1.ref rfl

/-- What can be reached around the methods on the branch is followed. -/
theorem follows_traceBelow {path : List MethodRef} {m q : MethodRef} (hm : m ∉ path)
    (h : Relation.ReflTransGen (fun a b => t.LeadsTo a b ∧ b ∉ path) m q) :
    (t.traceBelow path m).Follows q := by
  -- Each level of the tree takes one more method out of the graph: the one just left for good.
  induction path, m using t.traceBelow_induction with
  | marked path m hmem => exact absurd hmem hm
  | followed path m _ ih =>
    rw [follows_iff]
    rcases reflTransGen_last_exit h with rfl | ⟨c, ⟨branch, hbranch, rfl⟩, hc, hrest⟩
    · refine .inl ⟨t.traceBelow_ref path q, ?_⟩
      rw [t.traceBelow_of_not_mem hm]
    · refine .inr ⟨t.follow (m :: path) branch, t.follow_mem_calls hm hbranch, ?_⟩
      rw [← follows_bare, t.bare_follow]
      exact ih branch hbranch hc hrest

theorem follows_trace {start q : MethodRef} (h : Relation.ReflTransGen t.LeadsTo start q) :
    (t.trace start).Follows q := by
  apply t.follows_traceBelow (List.not_mem_nil)
  simpa using h

/-- One step down a chain follows a branch. -/
theorem leadsTo_of_mem_calls {start : MethodRef} {above : List ChainNode} {n c : ChainNode}
    (h : (t.trace start).Occurs above n) (hc : c ∈ n.calls) : t.LeadsTo n.ref c.ref := by
  have hn : n.isLoop = false := by
    by_contra hloop
    rw [(t.traced_of_occurs h).calls_eq_nil (by simpa using hloop)] at hc
    cases hc
  obtain ⟨path, hcalls⟩ := t.calls_of_occurs h hn
  rw [hcalls] at hc
  obtain ⟨branch, hbranch, rfl⟩ := List.mem_map.mp hc
  exact ⟨branch, hbranch, (t.follow_ref path branch).symm⟩

/-- Every node of a chain stands for a method that can be reached from the root. -/
theorem reaches_of_occurs {start : MethodRef} {above : List ChainNode} {n : ChainNode}
    (h : (t.trace start).Occurs above n) : Relation.ReflTransGen t.LeadsTo start n.ref := by
  induction h with
  | root => rw [t.trace_ref]
  | call hn hc ih => exact ih.tail (t.leadsTo_of_mem_calls hn hc)

end

/-- A resolved call of a method that `m` reaches inside its service leads to `m'`. -/
def CallStep (sites : List CallSite) (catalog : Catalog) (policy : Policy)
    (reachable : ReachableIndex) (m m' : MethodRef) : Prop :=
  ∃ site ∈ sites, ∃ e, catalog.match? policy site = some e ∧ site.source = m.1 ∧
    site.bareMethod ∈ reachable.reachableOrSelf m.1 m.2 ∧ site.target = m'.1 ∧ e.method = m'.2

theorem leadsTo_ofCatalog (sites : List CallSite) (catalog : Catalog) (policy : Policy)
    (reachable : ReachableIndex) :
    (ofCatalog sites catalog policy reachable).LeadsTo =
      CallStep sites catalog policy reachable := by
  funext m m'
  apply propext
  unfold LeadsTo
  rw [exists_branch_iff sites catalog policy reachable m (P := fun b => b.ref = m')]
  constructor
  · rintro ⟨⟨site, e⟩, hcall, rfl⟩
    obtain ⟨hsite, hsource, hbare, hmatch⟩ :=
      (mem_resolvedCalls sites catalog policy reachable m).mp hcall
    exact ⟨site, hsite, e, hmatch, hsource, hbare, rfl, rfl⟩
  · rintro ⟨site, hsite, e, hmatch, hsource, hbare, htarget, hmethod⟩
    refine ⟨(site, e), ?_, Prod.ext htarget hmethod⟩
    exact (mem_resolvedCalls sites catalog policy reachable m).mpr ⟨hsite, hsource, hbare, hmatch⟩

/-- The methods of a chain are exactly those that resolved calls reach from its root in any number of
steps, and each of them has a node that is no loop marker. -/
theorem trace_covers_reached (sites : List CallSite) (catalog : Catalog) (policy : Policy)
    (reachable : ReachableIndex) (start m : MethodRef) :
    let chain := (ofCatalog sites catalog policy reachable).trace start
    let reached := Relation.ReflTransGen (CallStep sites catalog policy reachable) start m
    ((∃ above n, chain.Occurs above n ∧ n.ref = m) ↔ reached) ∧
    ((∃ above n, chain.Occurs above n ∧ n.ref = m ∧ n.isLoop = false) ↔ reached) := by
  intro chain reached
  have hsound : (∃ above n, chain.Occurs above n ∧ n.ref = m) → reached := by
    rintro ⟨above, n, hocc, rfl⟩
    have hreach := reaches_of_occurs _ hocc
    rwa [leadsTo_ofCatalog] at hreach
  have hcomplete : reached → chain.Follows m := by
    intro hreach
    apply follows_trace
    rwa [leadsTo_ofCatalog]
  refine ⟨⟨hsound, ?_⟩, ?_, hcomplete⟩
  · intro hreach
    obtain ⟨above, n, hocc, href, _⟩ := hcomplete hreach
    exact ⟨above, n, hocc, href⟩
  · rintro ⟨above, n, hocc, href, _⟩
    exact hsound ⟨above, n, hocc, href⟩

end Tracer

end ServiceChains
