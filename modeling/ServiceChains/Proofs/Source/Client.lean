import ServiceChains.Proofs.Source.Method
import ServiceChains.Proofs.Text.LastDot
import ServiceChains.Source.Client

/-!
# Calls belong to declared methods

A call is attributed to the last method whose header begins before it. Calls are searched in the
source as it stands and headers in the source with its comments blanked, but offsets are the same in
both. The name of a method is a word, so it has no dot and can be read off the full name of the
caller, whatever dots package and file name have. So the callers that the tracer sees are the methods
that the call graph of the source declares, apart from the word for what is unknown.
-/
namespace ServiceChains

namespace Source

open Text Cursor

section Names

variable {c d : Cursor}

theorem isWord_of_headerTail {name : List Char} (h : headerTail c = some (name, d)) :
    ∀ x ∈ name, isWord x = true := by
  simp only [headerTail, Option.bind_eq_bind, Option.bind_eq_some_iff, Prod.exists] at h
  obtain ⟨_, _, _, word, _, hword, _, _, _, _, _, hend⟩ := h
  have hname : name = word := by
    split at hend
    all_goals
      simp only [Option.bind_eq_some_iff] at hend
      obtain ⟨_, _, _, _, hpure⟩ := hend
      cases hpure
      rfl
  obtain ⟨rfl, -, -⟩ := run1_eq_some_iff.mp hword
  intro x hx
  rw [hname] at hx
  exact List.mem_takeWhile_imp hx

/-- The name of a method is a word. -/
theorem isWord_of_signature {value : List Char × List Char}
    (h : signature c = some (value, d)) : ∀ x ∈ value.2, isWord x = true := by
  simp only [signature, Option.bind_eq_bind, Option.bind_eq_some_iff, Prod.exists] at h
  obtain ⟨_, _, _, _, _, _, hend⟩ := h
  split at hend
  · obtain ⟨last, _, hlast⟩ := List.exists_of_findSome?_eq_some hend
    simp only [Option.bind_eq_some_iff] at hlast
    obtain ⟨⟨_, _⟩, htail, hpure⟩ := hlast
    cases hpure
    exact isWord_of_headerTail htail
  · simp only [Option.bind_eq_some_iff] at hend
    obtain ⟨⟨_, _⟩, htail, hpure⟩ := hend
    cases hpure
    exact isWord_of_headerTail htail

theorem isWord_dot : isWord '.' = false := by decide

theorem dot_notMem_name {code : List Char} {h : Header} (hh : h ∈ headers code) :
    '.' ∉ h.name.toList := by
  obtain ⟨f, hf, hkeep⟩ := List.mem_filterMap.mp hh
  dsimp only at hkeep
  split_ifs at hkeep
  cases hkeep
  obtain ⟨before, rest, after, hfound⟩ := foundAt_of_mem_scan hf
  obtain ⟨_, hany⟩ := header_eq_some_iff.mp hfound.read_eq
  obtain ⟨_, _, hsignature⟩ := Option.bind_eq_some_iff.mp hany
  intro hdot
  rw [String.toList_ofList] at hdot
  have hword := isWord_of_signature hsignature '.' hdot
  rw [isWord_dot] at hword
  cases hword

end Names

/-- The spans of headers have their names and begin where they end. -/
theorem map_spans (size : Nat) (hs : List Header) :
    (spans size hs).map (fun m => (m.name, m.start)) = hs.map fun h => (h.name, h.stop) := by
  fun_induction spans size hs with
  | case1 => rfl
  | case2 h => rfl
  | case3 h next rest ih =>
    rw [List.map_cons, ih]
    rfl

/-- The method in the `i`-th place of a source is the one around an offset: its header begins in the
source before the offset, and no later header does. -/
structure Encloses (source : List Char) (offset i : Nat) (m : MethodSpan) : Prop where
  listed : (methods source)[i]? = some m
  begins : ∃ h, (headers (blank false source))[i]? = some h ∧ h.name = m.name ∧
    h.stop = m.start ∧ IsBoundary source h.start ∧ h.start < offset
  last : ∀ (j : Nat) (h : Header), i < j → (headers (blank false source))[j]? = some h →
    offset ≤ h.start

/-- The caller of a call that begins at an offset: the method around it, unknown if there is none. -/
inductive IsCaller (source : List Char) (offset : Nat) : String → Prop where
  | method {i : Nat} {m : MethodSpan} (h : Encloses source offset i m) :
    IsCaller source offset m.name
  | unknown (h : ∀ h ∈ headers (blank false source), offset ≤ h.start) :
    IsCaller source offset unknownName

theorem enclosingMethod_concat (hs : List Header) (h : Header) (offset : Nat) :
    enclosingMethod (hs ++ [h]) offset =
      if h.start < offset then h.name else enclosingMethod hs offset := by
  unfold enclosingMethod
  split_ifs with hbefore <;> simp [hbefore]

/-- The last header that begins before an offset gives the name, if there is one. -/
theorem enclosingMethod_cases (hs : List Header) (offset : Nat) :
    (∀ h ∈ hs, offset ≤ h.start) ∧ enclosingMethod hs offset = unknownName ∨
    ∃ (i : Nat) (h : Header), hs[i]? = some h ∧ h.start < offset ∧
      enclosingMethod hs offset = h.name ∧
      ∀ (j : Nat) (later : Header), i < j → hs[j]? = some later → offset ≤ later.start := by
  induction hs using List.reverseRecOn with
  | nil => exact .inl ⟨by simp, rfl⟩
  | append_singleton hs h ih =>
    rw [enclosingMethod_concat]
    split_ifs with hbefore
    · refine .inr ⟨hs.length, h, by simp, hbefore, rfl, ?_⟩
      intro j later hj hlater
      have hnone : (hs ++ [h])[j]? = none := by
        rw [List.getElem?_eq_none_iff, List.length_append, List.length_singleton]
        omega
      rw [hnone] at hlater
      cases hlater
    · rcases ih with ⟨hall, hunknown⟩ | ⟨i, first, hfirst, hstart, hname, hlast⟩
      · refine .inl ⟨?_, hunknown⟩
        intro other hother
        rcases List.mem_append.mp hother with hother | hother
        · exact hall other hother
        · rw [List.mem_singleton.mp hother]
          omega
      · have hi : i < hs.length := (List.getElem?_eq_some_iff.mp hfirst).1
        refine .inr ⟨i, first, ?_, hstart, hname, ?_⟩
        · rw [List.getElem?_append_left hi, hfirst]
        · intro j later hj hlater
          by_cases hinside : j < hs.length
          · rw [List.getElem?_append_left hinside] at hlater
            exact hlast j later hj hlater
          · rw [List.getElem?_append_right (by omega)] at hlater
            have hmem := List.mem_singleton.mp (List.mem_of_getElem? hlater)
            rw [hmem]
            omega

theorem isCaller_enclosingMethod (source : List Char) (offset : Nat) :
    IsCaller source offset (enclosingMethod (headers (blank false source)) offset) := by
  rcases enclosingMethod_cases (headers (blank false source)) offset with
    ⟨hall, hname⟩ | ⟨i, h, hi, hstart, hname, hlast⟩
  · rw [hname]
    exact .unknown hall
  · have hspan : ((methods source).map fun m => (m.name, m.start))[i]? = some (h.name, h.stop) := by
      rw [methods, map_spans, List.getElem?_map, hi]
      rfl
    rw [List.getElem?_map] at hspan
    obtain ⟨m, hm, hpair⟩ := Option.map_eq_some_iff.mp hspan
    obtain ⟨hsame, hbody⟩ := Prod.mk.inj hpair
    have hbetween := (placed_headers source).start_between h (List.mem_of_getElem? hi)
    rw [hname, ← hsame]
    exact .method ⟨hm, ⟨h, hi, hsame.symm, hbody.symm, hbetween, hstart⟩, hlast⟩

theorem dot_notMem_caller {source : List Char} {offset : Nat} {name : String}
    (h : IsCaller source offset name) : '.' ∉ name.toList := by
  cases h with
  | method hencloses =>
    obtain ⟨h, hi, hname, -⟩ := hencloses.begins
    rw [← hname]
    exact dot_notMem_name (List.mem_of_getElem? hi)
  | unknown => decide

section Sites

variable {service fileName : String} {source : List Char}

/-- What a call site tells about a call of a source. -/
structure IsSiteOf (source : List Char) (call : Found ClientCall) (site : CallSite) : Prop where
  verb : call.value.verb = .ok site.verb
  target : resolve? (bindings source) call.value.address = some (site.target, site.endpoint)
  caller : IsCaller source call.start site.bareMethod

/-- Does a call name a supported verb and a target? -/
def ClientCall.isReported (bound : List (String × String)) (call : ClientCall) : Bool :=
  call.verb.toOption.isSome && (resolve? bound call.address).isSome

/-- The call site of a call, if it is reported. -/
def siteOf? (service fileName : String) (source : List Char) (call : Found ClientCall) :
    Option CallSite :=
  match call.value.verb, resolve? (bindings source) call.value.address with
  | .ok verb, some (target, endpoint) =>
    some ⟨service, unitName fileName source ++ "." ++
      enclosingMethod (headers (blank false source)) call.start, target, endpoint, verb⟩
  | _, _ => none

theorem callSites_eq (service fileName : String) (source : List Char) :
    callSites service fileName source =
      (scan clientCall source).filterMap (siteOf? service fileName source) := rfl

theorem isSome_siteOf? (call : Found ClientCall) :
    (siteOf? service fileName source call).isSome = call.value.isReported (bindings source) := by
  unfold siteOf? ClientCall.isReported
  cases call.value.verb <;> cases resolve? (bindings source) call.value.address <;> rfl

/-- The caller can be read off the full name of the calling method. -/
theorem isSiteOf_of_siteOf? {call : Found ClientCall} {site : CallSite}
    (h : siteOf? service fileName source call = some site) : IsSiteOf source call site := by
  unfold siteOf? at h
  split at h
  · rename_i verb target endpoint hverb htarget
    cases h
    have hcaller := isCaller_enclosingMethod source call.start
    refine ⟨hverb, htarget, ?_⟩
    rwa [CallSite.bareMethod, afterLastDot_append _ _ (dot_notMem_caller hcaller)]
  · cases h

theorem forall₂_filterMap {α β : Type} {f : α → Option β} {R : α → β → Prop}
    (h : ∀ a b, f a = some b → R a b) (items : List α) :
    List.Forall₂ R (items.filter fun a => (f a).isSome) (items.filterMap f) := by
  induction items with
  | nil => exact .nil
  | cons a items ih =>
    cases hfa : f a with
    | none => simpa [hfa] using ih
    | some b => simpa [hfa] using And.intro (h a b hfa) ih

/-- Callers other than the unknown one are declared where the source was added. -/
theorem mem_methods_of_isCaller {offset : Nat} {name : String} (h : IsCaller source offset name)
    (hknown : name ≠ unknownName) (g : CallGraph) : name ∈ (g.addSource source).methods := by
  cases h with
  | method hencloses =>
    have hlisted := List.mem_of_getElem? hencloses.listed
    exact g.mem_methods_addSource.mpr (.inr ⟨_, hlisted, rfl⟩)
  | unknown => exact absurd rfl hknown

end Sites

/-- The call sites of a source are those of its reported calls, in order. The caller of each is the
method around the call: the last of the methods of the source whose header begins before it. It is
unknown only if there is none. So a call graph to which the source was added declares the callers,
and an index of it has a set for each of them that contains it. -/
theorem callers_are_declared (service fileName : String) (source : List Char) :
    List.Forall₂ (IsSiteOf source)
      ((scan clientCall source).filter (·.value.isReported (bindings source)))
      (callSites service fileName source) ∧
    ∀ site ∈ callSites service fileName source, site.bareMethod ≠ unknownName →
      ∀ (earlier g : CallGraph) (graphs : Table CallGraph), (earlier.addSource source).Grows g →
        graphs.get? service = some g →
        g.declares site.bareMethod = true ∧
        ∃ set, (ReachableIndex.resolve graphs).get? service site.bareMethod = some set ∧
          site.bareMethod ∈ set.names := by
  rw [callSites_eq]
  constructor
  · have hsite : ∀ call site, siteOf? service fileName source call = some site →
        IsSiteOf source call site := fun _ _ => isSiteOf_of_siteOf?
    simpa only [isSome_siteOf?] using forall₂_filterMap hsite (scan clientCall source)
  · intro site hsite hknown earlier g graphs hgrows hg
    obtain ⟨call, _, hcall⟩ := List.mem_filterMap.mp hsite
    have hcaller := (isSiteOf_of_siteOf? hcall).caller
    have hdeclared := hgrows.mem_methods (mem_methods_of_isCaller hcaller hknown earlier)
    exact ⟨List.contains_iff_mem.mpr hdeclared, ReachableIndex.exists_get?_resolve hg hdeclared⟩

/-- A method that makes a call, behind a comment with a character of two bytes. -/
def callingSource : List Char :=
  ("package a.b;/*ü*/ class A \x7b public void go() \x7b" ++
    "restTemplate.put(getServiceUrl(\"s\") + \"/x\", 1);\x7d\x7d").toList

/-- The call site of that call in a file whose name has a dot of its own. -/
def callingSite : CallSite :=
  ⟨"web", "a.b.A.v2.go", "s", "/x", .put⟩

theorem callers_are_declared_dotted :
    callSites "web" "A.v2.java" callingSource = [callingSite] ∧
      callingSite.bareMethod = "go" ∧ "go" ≠ unknownName ∧
      (∃ call ∈ scan clientCall callingSource, IsSiteOf callingSource call callingSite) ∧
      (({} : CallGraph).addSource callingSource).declares "go" = true ∧
      ∃ set, (ReachableIndex.resolve [("web", ({} : CallGraph).addSource callingSource)]).get?
        "web" "go" = some set ∧ "go" ∈ set.names := by
  have hsites : callSites "web" "A.v2.java" callingSource = [callingSite] := by decide +kernel
  have hbare : callingSite.bareMethod = "go" := by decide
  have hknown : "go" ≠ unknownName := by decide
  obtain ⟨hcalls, hcallers⟩ := callers_are_declared "web" "A.v2.java" callingSource
  rw [hsites] at hcalls hcallers
  obtain ⟨call, _, hcall, _, hreported⟩ := List.forall₂_cons_right_iff.mp hcalls
  have hmem : call ∈ scan clientCall callingSource := by
    refine List.mem_of_mem_filter (p := (·.value.isReported (bindings callingSource))) ?_
    rw [hreported]
    exact List.mem_cons_self ..
  obtain ⟨hdeclared, hreach⟩ := hcallers callingSite (List.mem_singleton_self _)
    (by rwa [hbare]) {} _ [("web", ({} : CallGraph).addSource callingSource)] .refl
    (by simp [Table.get?])
  rw [hbare] at hdeclared hreach
  exact ⟨hsites, hbare, hknown, ⟨call, hmem, hcall⟩, hdeclared, hreach⟩

end Source

end ServiceChains
