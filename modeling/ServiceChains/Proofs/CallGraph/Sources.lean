import ServiceChains.Proofs.Source.Calls
import ServiceChains.Proofs.Source.Method

/-!
# The call graph of several sources

Adding a source to a call graph declares the names of its headers and adds an edge for each call in
the text behind a header, up to the header that follows. Methods and edges are sets, so the graph of
several sources is the union over all their headers: neither the order of the sources nor repeats of
them matter, and a source that is added takes nothing away.
-/
namespace ServiceChains

open Text

namespace Source

/-- The source has the header `h`, behind which `body` stands up to the header that follows, or to
the end of the source. -/
def HasBody (source : List Char) (h : Header) (body : List Char) : Prop :=
  ∃ earlier later, headers (blank false source) = earlier ++ h :: later ∧
    ∃ front behind, source = front ++ (body ++ behind) ∧ byteSize front = h.stop ∧
      byteSize front + byteSize body = (later.head?.map Header.start).getD (byteSize source)

/-- Each header has a span up to the header that follows, or to the end. -/
theorem mem_spans_iff {size : Nat} {hs : List Header} {m : MethodSpan} :
    m ∈ spans size hs ↔ ∃ earlier h later, hs = earlier ++ h :: later ∧
      m = ⟨h.name, h.stop, max ((later.head?.map Header.start).getD size) h.stop⟩ := by
  fun_induction spans size hs with
  | case1 => simp
  | case2 h =>
    rw [List.mem_singleton]
    constructor
    · intro hm
      exact ⟨[], h, [], rfl, hm⟩
    · rintro ⟨earlier, h', later, hsplit, rfl⟩
      obtain ⟨rfl, hhead⟩ | ⟨rest, rfl, hrest⟩ := List.cons_eq_append_iff.mp hsplit
      · cases hhead
        rfl
      · simp at hrest
  | case3 h next rest ih =>
    rw [List.mem_cons, ih]
    constructor
    · rintro (rfl | ⟨earlier, h', later, hsplit, rfl⟩)
      · exact ⟨[], h, next :: rest, rfl, rfl⟩
      · exact ⟨h :: earlier, h', later, by rw [hsplit, List.cons_append], rfl⟩
    · rintro ⟨earlier, h', later, hsplit, rfl⟩
      obtain ⟨rfl, hhead⟩ | ⟨rest', rfl, hrest⟩ := List.cons_eq_append_iff.mp hsplit
      · cases hhead
        exact .inl rfl
      · exact .inr ⟨rest', h', later, hrest, rfl⟩

/-- The header that follows begins behind the end of a header. -/
theorem Placed.stop_le_following {source : List Char} {earlier later : List Header} {h : Header}
    (hplaced : Placed source (earlier ++ h :: later)) :
    h.stop ≤ (later.head?.map Header.start).getD (byteSize source) := by
  cases later with
  | nil => exact (hplaced.stop_between h (by simp)).le_byteSize
  | cons next later =>
    have hordered := (List.pairwise_append.mp hplaced.ordered).2.1
    exact (List.pairwise_cons.mp hordered).1 next (by simp)

/-- The methods of a source are its headers, each with the text behind it. -/
theorem exists_method_iff {source body : List Char} {name : String} :
    (∃ m ∈ methods source, m.name = name ∧ slice? m.start m.stop source = some body) ↔
      ∃ h, h.name = name ∧ HasBody source h body := by
  have hplaced := placed_headers source
  constructor
  · rintro ⟨m, hm, rfl, hbody⟩
    obtain ⟨-, hstart, hstop⟩ := isBoundary_of_mem_spans hplaced hm
    obtain ⟨earlier, h, later, hsplit, rfl⟩ := mem_spans_iff.mp hm
    rw [hsplit] at hplaced
    have hle := hplaced.stop_le_following
    rw [max_eq_left hle] at hstop hbody
    obtain ⟨front, inside, behind, hcut, hfront, hinside⟩ := hstart.exists_between hstop hle
    rw [← hfront, ← hinside, hcut, slice?_append] at hbody
    cases hbody
    exact ⟨h, rfl, earlier, later, hsplit, front, behind, hcut, hfront, hinside⟩
  · rintro ⟨h, rfl, earlier, later, hsplit, front, behind, hcut, hfront, hinside⟩
    rw [hsplit] at hplaced
    refine ⟨_, mem_spans_iff.mpr ⟨earlier, h, later, hsplit, rfl⟩, rfl, ?_⟩
    simp only [max_eq_left hplaced.stop_le_following]
    rw [← hinside, ← hfront, hcut, slice?_append]

/-- No method is without a body. -/
theorem exists_body_of_mem_methods {source : List Char} {m : MethodSpan}
    (hm : m ∈ methods source) : ∃ body, slice? m.start m.stop source = some body := by
  obtain ⟨hle, hstart, hstop⟩ := isBoundary_of_mem_spans (placed_headers source) hm
  exact exists_slice? hstart hstop hle

theorem exists_method_named_iff {source : List Char} {name : String} :
    (∃ m ∈ methods source, name = m.name) ↔
      ∃ h ∈ headers (blank false source), h.name = name := by
  constructor
  · rintro ⟨m, hm, rfl⟩
    obtain ⟨earlier, h, later, hsplit, rfl⟩ := mem_spans_iff.mp hm
    exact ⟨h, by simp [hsplit], rfl⟩
  · rintro ⟨h, hh, rfl⟩
    obtain ⟨earlier, later, hsplit⟩ := List.mem_iff_append.mp hh
    exact ⟨_, mem_spans_iff.mpr ⟨earlier, h, later, hsplit, rfl⟩, rfl⟩

end Source

open Source

namespace CallGraph

/-- The source has a call of `callee` in the text behind a header of `caller`. -/
def CallsIn (source : List Char) (caller callee : String) : Prop :=
  ∃ h body before, h.name = caller ∧ HasBody source h body ∧ CallAt body before callee

section Source

variable (g : CallGraph) (source : List Char)

/-- The edges of a source are the calls behind its headers. -/
theorem mem_edges_addSource_iff {caller callee : String} :
    (caller, callee) ∈ (g.addSource source).edges ↔
      (caller, callee) ∈ g.edges ∨ CallsIn source caller callee := by
  rw [mem_edges_addSource]
  apply or_congr_right
  constructor
  · rintro ⟨m, hm, rfl, hcallee⟩
    obtain ⟨body, hbody⟩ := exists_body_of_mem_methods hm
    rw [hbody, Option.getD_some] at hcallee
    obtain ⟨before, hcall⟩ := mem_calls_iff.mp hcallee
    obtain ⟨h, hname, hhas⟩ := exists_method_iff.mp ⟨m, hm, rfl, hbody⟩
    exact ⟨h, body, before, hname, hhas, hcall⟩
  · rintro ⟨h, body, before, hname, hhas, hcall⟩
    obtain ⟨m, hm, hcaller, hbody⟩ := exists_method_iff.mpr ⟨h, hname, hhas⟩
    refine ⟨m, hm, hcaller.symm, ?_⟩
    rw [hbody, Option.getD_some]
    exact mem_calls_iff.mpr ⟨before, hcall⟩

theorem mem_methods_addSource_iff {m : String} :
    m ∈ (g.addSource source).methods ↔
      m ∈ g.methods ∨ ∃ h ∈ headers (blank false source), h.name = m := by
  rw [mem_methods_addSource, exists_method_named_iff]

end Source

/-- No method and no edge is listed twice. -/
structure Distinct (g : CallGraph) : Prop where
  methods : g.methods.Nodup
  edges : g.edges.Nodup

namespace Distinct

variable {g : CallGraph}

theorem addBody (h : g.Distinct) (name : String) (body : List Char) :
    (g.addBody name body).Distinct := by
  have hdeclared : (g.addMethod name).Distinct := ⟨nodup_insertNew h.methods name, h.edges⟩
  exact List.foldlRecOn (calls body) _ hdeclared fun g hg callee _ =>
    ⟨hg.methods, nodup_insertNew hg.edges _⟩

theorem addSource (h : g.Distinct) (source : List Char) : (g.addSource source).Distinct :=
  List.foldlRecOn (Source.methods source) _ h fun _ hg m _ => hg.addBody m.name _

end Distinct

/-- The call graph of several sources, added one after the other. -/
def ofSources (sources : List (List Char)) : CallGraph :=
  sources.foldl addSource {}

variable {sources : List (List Char)}

theorem distinct_ofSources (sources : List (List Char)) : (ofSources sources).Distinct :=
  List.foldlRecOn sources addSource ⟨List.nodup_nil, List.nodup_nil⟩ fun _ hg source _ =>
    hg.addSource source

theorem mem_methods_ofSources {m : String} :
    m ∈ (ofSources sources).methods ↔
      ∃ source ∈ sources, ∃ h ∈ headers (blank false source), h.name = m := by
  have hfold := foldl_iff_exists (p := fun g : CallGraph => m ∈ g.methods)
    (fun g source => g.mem_methods_addSource_iff source) {} sources
  rwa [or_iff_right List.not_mem_nil] at hfold

theorem mem_edges_ofSources {caller callee : String} :
    (caller, callee) ∈ (ofSources sources).edges ↔
      ∃ source ∈ sources, CallsIn source caller callee := by
  have hfold := foldl_iff_exists (p := fun g : CallGraph => (caller, callee) ∈ g.edges)
    (fun g source => g.mem_edges_addSource_iff source) {} sources
  rwa [or_iff_right List.not_mem_nil] at hfold

theorem length_eq_ncard {α : Type} {xs : List α} (h : xs.Nodup) {s : Set α}
    (hs : ∀ x, x ∈ xs ↔ x ∈ s) : xs.length = s.ncard := by
  classical
  have hset : s = (xs.toFinset : Set α) := by
    ext x
    rw [← hs, Finset.mem_coe, List.mem_toFinset]
  rw [hset, Set.ncard_coe_finset, List.toFinset_card_of_nodup h]

/-- The graph of several sources declares the names of their headers and has the calls in the texts
behind these headers as edges; it counts each name and each edge once. Sources in another order, or
with repeats, have the same graph, and adding a source to it takes no method and no edge away. -/
theorem sources_unite_in_graph (sources : List (List Char)) :
    (∀ m, (ofSources sources).declares m = true ↔
      ∃ source ∈ sources, ∃ h ∈ headers (blank false source), h.name = m) ∧
    (∀ m callee, callee ∈ (ofSources sources).callees m ↔ ∃ source ∈ sources, ∃ h body before,
      h.name = m ∧ HasBody source h body ∧ CallAt body before callee) ∧
    (ofSources sources).methodCount = Set.ncard {m | (ofSources sources).declares m = true} ∧
    (ofSources sources).edgeCount =
      Set.ncard {e : String × String | e.2 ∈ (ofSources sources).callees e.1} ∧
    (∀ others : List (List Char), (∀ source, source ∈ others ↔ source ∈ sources) →
      (ofSources others).methods.Perm (ofSources sources).methods ∧
      (ofSources others).edges.Perm (ofSources sources).edges) ∧
    ∀ source,
      (∀ m, (ofSources sources).declares m = true →
        ((ofSources sources).addSource source).declares m = true) ∧
      ∀ m, ∀ callee ∈ (ofSources sources).callees m,
        callee ∈ ((ofSources sources).addSource source).callees m := by
  have hdistinct := distinct_ofSources sources
  have hdeclares (g : CallGraph) (m : String) : g.declares m = true ↔ m ∈ g.methods :=
    List.contains_iff_mem
  refine ⟨?_, ?_, ?_, ?_, ?_, ?_⟩
  · intro m
    rw [hdeclares, mem_methods_ofSources]
  · intro m callee
    rw [mem_callees, mem_edges_ofSources]
    rfl
  · exact length_eq_ncard hdistinct.methods fun m => (hdeclares _ m).symm
  · exact length_eq_ncard hdistinct.edges fun e => (mem_callees _).symm
  · intro others hsame
    have hothers := distinct_ofSources others
    constructor
    · apply (List.perm_ext_iff_of_nodup hothers.methods hdistinct.methods).mpr
      intro m
      simp only [mem_methods_ofSources, hsame]
    · apply (List.perm_ext_iff_of_nodup hothers.edges hdistinct.edges).mpr
      rintro ⟨caller, callee⟩
      simp only [mem_edges_ofSources, hsame]
  · intro source
    constructor
    · intro m hm
      rw [hdeclares] at hm ⊢
      exact (mem_methods_addSource_iff _ source).mpr (.inl hm)
    · intro m callee hcallee
      rw [mem_callees] at hcallee ⊢
      exact (mem_edges_addSource_iff _ source).mpr (.inl hcallee)

/-- Two classes that both have a method of the same name. -/
def loadingSource : List Char :=
  "class A \x7b public void run() \x7bload();\x7d \x7d".toList

def savingSource : List Char :=
  "class B \x7b public void run() \x7bsave();\x7d  int save() \x7b\x7d \x7d".toList

/-- The methods of the same name become one, which calls what both call. -/
theorem sources_unite_in_graph_run :
    (∀ source, source ∈ [savingSource, loadingSource, savingSource] ↔
      source ∈ [loadingSource, savingSource]) ∧
    (ofSources [savingSource, loadingSource, savingSource]).methods.Perm ["run", "save"] ∧
    (ofSources [savingSource, loadingSource, savingSource]).edges.Perm
      [("run", "load"), ("run", "save")] ∧
    "load" ∈ ((ofSources [loadingSource, savingSource]).addSource []).callees "run" := by
  have hgraph : ofSources [loadingSource, savingSource] =
      ⟨["run", "save"], [("run", "load"), ("run", "save")]⟩ := by decide +kernel
  have hsame (a b source : List Char) : source ∈ [b, a, b] ↔ source ∈ [a, b] := by
    simp only [List.mem_cons, List.not_mem_nil, or_false]
    tauto
  obtain ⟨-, -, -, -, hunchanged, hkept⟩ := sources_unite_in_graph [loadingSource, savingSource]
  obtain ⟨hmethods, hedges⟩ := hunchanged _ (hsame loadingSource savingSource)
  have hload := (hkept []).2 "run" "load" (by rw [hgraph]; decide)
  rw [hgraph] at hmethods hedges
  exact ⟨hsame loadingSource savingSource, hmethods, hedges, hload⟩

end CallGraph

end ServiceChains
