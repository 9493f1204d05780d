import ServiceChains.Proofs.Artifact
import ServiceChains.Proofs.Chain.Coverage
import ServiceChains.Proofs.Chain.Forest
import ServiceChains.Proofs.Text.Encoding

/-!
# Chains survive their artifact

A written forest is read back as long as the reader gets to its leaves. Each level of a chain takes
two levels of nesting, an object for the node and an array for its calls, and the forest itself is
an array. Writing knows no limit, so a chain of more than sixty-two steps is written but cannot be
read. What stands below a loop marker is not written; a traced chain has nothing there.

No traced chain is that deep. Equal chains are found by their structural keys, and each level quotes
the keys of the level below it, which doubles them at least: a chain of sixty-three steps has a key
that is longer than any text.
-/
namespace ServiceChains

open ChainNode

namespace ChainNode

theorem toJsons_eq_map (ns : List ChainNode) : toJsons ns = ns.map toJson := by
  induction ns with
  | nil => rw [toJsons, List.map_nil]
  | cons n ns ih => rw [toJsons, List.map_cons, ih]

theorem toJson_eq (n : ChainNode) :
    n.toJson = .object (
      [Json.field "service" (.text n.service), Json.field "method" (.text n.method)] ++
      (if n.isLoop then [] else [Json.field "calls" (.array (n.calls.map toJson))]) ++
      Json.field? "endpoint" (n.endpoint.map Json.text) ++
      Json.field? "http_method" (n.verb.map fun v => Json.text v.name) ++
      Json.field? "count" (n.count.map Json.word) ++
      (if n.isLoop then [Json.field "loop" (.bool true)] else [])) := by
  cases n
  rw [toJson, toJsons_eq_map]

/-- The fields of a written node, as the reader finds them. -/
theorem values?_toJson (n : ChainNode) :
    n.toJson.values? fieldNames =
      some [some (.text n.service), some (.text n.method),
        if n.isLoop then none else some (.array (n.calls.map toJson)),
        n.endpoint.map Json.text, n.verb.map fun v => Json.text v.name, n.count.map Json.word,
        if n.isLoop then some (.bool true) else none] := by
  rw [toJson_eq]
  obtain ⟨service, method, calls, endpoint, verb, count, isLoop⟩ := n
  cases endpoint <;> cases verb <;> cases count <;> cases isLoop <;> rfl

theorem read_endpoint (endpoint : Option String) :
    Json.defaulted? none (Json.nullable? Json.text?) (endpoint.map Json.text) = some endpoint := by
  cases endpoint <;> rfl

theorem read_verb (budget : Nat) (verb : Option Verb) :
    Json.defaulted? none (Json.nullable? (Json.verb? budget))
      (verb.map fun v => Json.text v.name) = some verb := by
  cases verb with
  | none => rfl
  | some v => cases v <;> rfl

theorem read_count (count : Option UInt64) :
    Json.defaulted? none (Json.nullable? Json.word?) (count.map Json.word) = some count := by
  cases count with
  | none => rfl
  | some n =>
    change (Json.word n).word?.map some = some (some n)
    rw [Json.word?_word, Option.map_some]

/-- A node with other calls. -/
def withCalls (n : ChainNode) (calls : List ChainNode) : ChainNode :=
  { n with calls }

theorem withCalls_calls (n : ChainNode) : n.withCalls n.calls = n := by
  cases n
  rfl

theorem ofJson?_toJson_marker {n : ChainNode} (h : n.isLoop = true) (budget : Nat) :
    ofJson? (budget + 1) n.toJson = some (n.withCalls []) := by
  have hvalues := n.values?_toJson
  obtain ⟨service, method, calls, endpoint, verb, count, isLoop⟩ := n
  cases h
  rw [ofJson?, hvalues]
  simp only [read_endpoint, read_verb, read_count]
  rfl

/-- The calls of a node are read two levels further in. -/
theorem ofJson?_toJson_followed {n : ChainNode} (h : n.isLoop = false) (budget : Nat) :
    ofJson? (budget + 2) n.toJson =
      ((n.calls.map toJson).mapM (ofJson? budget)).map n.withCalls := by
  have hvalues := n.values?_toJson
  obtain ⟨service, method, calls, endpoint, verb, count, isLoop⟩ := n
  cases h
  rw [ofJson?, hvalues]
  simp only [read_endpoint, read_verb, read_count]
  cases hcalls : (calls.map toJson).mapM (ofJson? budget) with
  | none => simp [Json.required?, Json.text?, Json.text, hcalls]
  | some read => simp [Json.required?, Json.defaulted?, Json.text?, Json.text, hcalls, withCalls]

mutual

/-- The tree without what stands below loop markers. -/
def pruned : ChainNode → ChainNode
  | ⟨service, method, calls, endpoint, verb, count, isLoop⟩ =>
    ⟨service, method, if isLoop then [] else pruneds calls, endpoint, verb, count, isLoop⟩

/-- Several trees without what stands below loop markers. -/
def pruneds : List ChainNode → List ChainNode
  | [] => []
  | n :: ns => pruned n :: pruneds ns

end

theorem pruneds_eq_map (ns : List ChainNode) : pruneds ns = ns.map pruned := by
  induction ns with
  | nil => rw [pruneds, List.map_nil]
  | cons n ns ih => rw [pruneds, List.map_cons, ih]

theorem pruned_eq (n : ChainNode) :
    n.pruned = n.withCalls (if n.isLoop then [] else n.calls.map pruned) := by
  cases n
  rw [pruned, pruneds_eq_map]
  rfl

theorem map_pruned_eq {ns : List ChainNode} (h : ∀ n ∈ ns, n.pruned = n) : ns.map pruned = ns := by
  rw [List.map_congr_left h, List.map_id']

/-- A list is read if each of its items is. -/
theorem mapM_eq_ite {α β γ : Type} {write : β → α} {read : α → Option γ} {back : β → γ}
    {fits : β → Prop} [DecidablePred fits] {xs : List β}
    (h : ∀ x ∈ xs, read (write x) = if fits x then some (back x) else none) :
    (xs.map write).mapM read = if ∀ x ∈ xs, fits x then some (xs.map back) else none := by
  induction xs with
  | nil => simp
  | cons x xs ih =>
    rw [List.map_cons, List.mapM_cons, h x (by simp), ih (fun y hy => h y (by simp [hy]))]
    simp only [List.forall_mem_cons]
    by_cases hx : fits x
    · by_cases hxs : ∀ y ∈ xs, fits y
      · rw [if_pos hx, if_pos hxs, if_pos ⟨hx, hxs⟩]
        rfl
      · rw [if_pos hx, if_neg hxs, if_neg (fun hall => hxs hall.2)]
        rfl
    · simp [hx]

/-- A node is read back exactly if the budget reaches to its leaves. What stands below a loop marker
is not written. -/
theorem ofJson?_toJson (n : ChainNode) (k : Nat) :
    ofJson? (2 * k) n.toJson = if n.pruned.depth < k then some n.pruned else none := by
  induction n using induction_calls generalizing k with
  | step n ih =>
    cases k with
    | zero => rw [Nat.mul_zero, ofJson?, if_neg (by omega)]
    | succ k =>
      simp only [depth_lt_succ_iff, n.pruned_eq]
      cases hn : n.isLoop with
      | true =>
        rw [show 2 * (k + 1) = (2 * k + 1) + 1 by omega, ofJson?_toJson_marker hn]
        simp [withCalls]
      | false =>
        have hread := mapM_eq_ite fun c hc => ih c hc k
        rw [show 2 * (k + 1) = 2 * k + 2 by omega, ofJson?_toJson_followed hn, hread]
        simp only [withCalls, Bool.false_eq_true, ↓reduceIte, List.forall_mem_map]
        split_ifs <;> rfl

/-- Nothing stands below a loop marker. -/
def BareMarkers (root : ChainNode) : Prop :=
  ∀ above n, root.Occurs above n → n.isLoop = true → n.calls = []

theorem pruned_of_bareMarkers {n : ChainNode} (h : n.BareMarkers) : n.pruned = n := by
  induction n using induction_calls with
  | step n ih =>
    have hcalls : (if n.isLoop then [] else n.calls.map pruned) = n.calls := by
      split_ifs with hn
      · exact (h [] n .root hn).symm
      · apply map_pruned_eq
        intro c hc
        exact ih c hc fun above m hocc => h _ m (hocc.of_call hc)
    rw [pruned_eq, hcalls, withCalls_calls]

theorem bareMarkers_withCount {n : ChainNode} (h : n.BareMarkers) (count : Option UInt64) :
    (n.withCount count).BareMarkers := by
  intro above m hocc hloop
  obtain ⟨above', m', hocc', _, hcalls, hloop'⟩ := exists_occurs_of_withCount hocc
  rw [← hcalls]
  exact h above' m' hocc' (hloop'.trans hloop)

/-- A node is written with a name for every field and with decimal counts. -/
theorem plain_toJson (n : ChainNode) : n.toJson.Plain := by
  induction n using induction_calls with
  | step n ih =>
    have hcalls : (Json.array (n.calls.map toJson)).Plain := Json.plain_array_map ih
    rw [toJson_eq]
    apply Json.plain_object
    simp only [List.forall_mem_append]
    refine ⟨⟨⟨⟨⟨?_, ?_⟩, ?_⟩, ?_⟩, ?_⟩, ?_⟩
    · simp [Json.plainField_field, Json.plain_text]
    · split_ifs
      · simp
      · simpa using Json.plainField_field "calls" hcalls
    · apply Json.plainField_of_mem_field?
      simp [Json.plain_text]
    · apply Json.plainField_of_mem_field?
      simp [Json.plain_text]
    · apply Json.plainField_of_mem_field?
      simp [Json.plain_word]
    · split_ifs
      · simpa using Json.plainField_field "loop" (.bool true)
      · simp

end ChainNode

namespace ChainForest

theorem toJson_eq (f : ChainForest) : f.toJson = .array (f.map ChainNode.toJson) := by
  rw [toJson, toJsons_eq_map]

theorem plain_toJson (f : ChainForest) : f.toJson.Plain := by
  rw [toJson_eq]
  exact Json.plain_array_map fun n _ => n.plain_toJson

/-- A written chain nests as deep as its deepest node: the array of the forest, two levels for each
step on the way, and the object of the node with the array of its calls. -/
theorem ofJson?_toJson (f : ChainForest) :
    ofJson? Json.nestingLimit f.toJson =
      if ∀ root ∈ f, 2 * root.pruned.depth + 3 ≤ Json.nestingLimit then some (f.map pruned)
      else none := by
  have hread : (f.map ChainNode.toJson).mapM (ChainNode.ofJson? (2 * 63)) =
      if ∀ root ∈ f, root.pruned.depth < 63 then some (f.map pruned) else none :=
    mapM_eq_ite fun root _ => root.ofJson?_toJson 63
  have hfits (root : ChainNode) :
      2 * root.pruned.depth + 3 ≤ Json.nestingLimit ↔ root.pruned.depth < 63 := by
    unfold Json.nestingLimit
    omega
  simp only [hfits]
  rw [toJson_eq]
  exact hread

end ChainForest

/-- A written forest is read back without what stands below loop markers, or refused if it is too
deep. -/
theorem Artifact.readChains_of_bytes? {t : FileTree} {path : String} {f : ChainForest}
    (h : t.bytes? path = some f.toJson.render.toUTF8) :
    readChains t path =
      if ∀ root ∈ f, 2 * root.pruned.depth + 3 ≤ Json.nestingLimit then .ok (f.map pruned)
      else .error (.artifactRead path "not an artifact of this kind") := by
  rw [readChains, read_of_bytes? _ f.plain_toJson h, f.ofJson?_toJson]
  split_ifs <;> rfl

namespace Tracer

theorem bareMarkers_trace (t : Tracer) (m : MethodRef) : (t.trace m).BareMarkers := by
  intro above n hocc
  exact (t.traced_of_occurs hocc).calls_eq_nil

theorem pruned_of_mem_traceAll (t : Tracer) {root : ChainNode} (h : root ∈ t.traceAll) :
    root.pruned = root := by
  rw [t.traceAll_eq] at h
  obtain ⟨m, _, rfl⟩ := List.mem_map.mp h
  exact pruned_of_bareMarkers (bareMarkers_withCount (t.bareMarkers_trace m) _)

/-- A traced forest is read back from its artifact exactly if none of its chains nests deeper than
the reader goes, which is sixty-two steps. -/
theorem readChains_traceAll_iff (t : Tracer) {tree : FileTree} {path : String}
    (hbytes : tree.bytes? path = some t.traceAll.toJson.render.toUTF8) :
    Artifact.readChains tree path = .ok t.traceAll ↔
      ∀ root ∈ t.traceAll, 2 * root.depth + 3 ≤ Json.nestingLimit := by
  have hsame : ∀ root ∈ t.traceAll, root.pruned = root := fun root => t.pruned_of_mem_traceAll
  have hfits : (∀ root ∈ t.traceAll, 2 * root.pruned.depth + 3 ≤ Json.nestingLimit) ↔
      ∀ root ∈ t.traceAll, 2 * root.depth + 3 ≤ Json.nestingLimit := by
    apply forall₂_congr
    intro root hroot
    rw [hsame root hroot]
  have hread := Artifact.readChains_of_bytes? hbytes
  simp only [map_pruned_eq hsame, hfits] at hread
  rw [hread]
  simp

/-- The keys by which traced chains are grouped are texts that can be held: none has more than
`2 ^ 63 - 1` bytes. -/
def KeysFit (t : Tracer) : Prop :=
  ∀ m ∈ t.callers, (t.keyOf m).utf8ByteSize ≤ 2 ^ 63 - 1

/-- Keys that can be held belong to chains of at most sixty-two steps. -/
theorem KeysFit.depth_le {t : Tracer} (h : t.KeysFit) {root : ChainNode} (hroot : root ∈ t.traceAll) :
    root.depth ≤ 62 := by
  have hkey : root.structuralKey ∈ t.traceAll.map structuralKey := List.mem_map_of_mem hroot
  rw [map_structuralKey_traceAll, List.mem_eraseDups, List.mem_map] at hkey
  obtain ⟨m, hm, hkey⟩ := hkey
  have hsize := h m hm
  have hpow : 2 ^ root.depth < 2 ^ 63 := by
    calc 2 ^ root.depth ≤ root.structuralKey.length := root.two_pow_depth_le_structuralKey
      _ ≤ root.structuralKey.utf8ByteSize := Text.length_le_utf8ByteSize _
      _ < 2 ^ 63 := by
        rw [← hkey]
        omega
  exact Nat.lt_succ_iff.mp ((Nat.pow_lt_pow_iff_right (by omega)).mp hpow)

/-- A traced forest survives its artifact: where the written text stands, the forest is read. The keys
by which its chains were grouped could be held. -/
theorem readChains_traceAll (sites : List CallSite) (catalog : Catalog) (policy : Policy)
    (reachable : ReachableIndex) (tree : FileTree) (path : String)
    (hkeys : (ofCatalog sites catalog policy reachable).KeysFit)
    (hbytes : tree.bytes? path =
      some (ofCatalog sites catalog policy reachable).traceAll.toJson.render.toUTF8) :
    Artifact.readChains tree path = .ok (ofCatalog sites catalog policy reachable).traceAll := by
  rw [readChains_traceAll_iff _ hbytes]
  intro root hroot
  have hdepth := hkeys.depth_le hroot
  rw [Json.nestingLimit]
  omega

/-- Into an empty directory chains are written as they are. -/
theorem exists_write_chains (f : ChainForest) :
    ∃ tree, Artifact.write "chains.json" f.toJson {} = (.ok (), tree) ∧
      tree.bytes? "chains.json" = some f.toJson.render.toUTF8 := by
  have hname : Path.Names "chains.json" "chains.json" := by decide
  have htemporary : Path.Names (Artifact.temporaryPath "chains.json") "chains.json.tmp" := by decide
  exact Artifact.exists_write hname htemporary (by decide) rfl rfl rfl f.toJson

/-- A method calls the second of two methods that call each other. -/
def loopSites : List CallSite :=
  [⟨"a", "p.A.x", "b", "/y", .get⟩, ⟨"b", "p.B.y", "c", "/z", .get⟩,
    ⟨"c", "p.C.z", "b", "/y", .get⟩]

/-- A chain that ends in a loop marker is read back. -/
theorem readChains_traceAll_loop :
    let forest := (ofCatalog loopSites sampleCatalog .first {}).traceAll
    let marker : ChainNode :=
      { service := "b", method := "y", endpoint := some "/y", verb := some .get, count := some 1,
        isLoop := true }
    let second : ChainNode :=
      { service := "c", method := "z", calls := [marker], endpoint := some "/z", verb := some .get,
        count := some 1 }
    let first : ChainNode :=
      { service := "b", method := "y", calls := [second], endpoint := some "/y", verb := some .get,
        count := some 1 }
    forest = [{ service := "a", method := "x", calls := [first] }] ∧
      ∃ tree, Artifact.write "chains.json" forest.toJson {} = (.ok (), tree) ∧
        tree.bytes? "chains.json" = some forest.toJson.render.toUTF8 ∧
        Artifact.readChains tree "chains.json" = .ok forest := by
  intro forest marker second first
  let t := ofCatalog loopSites sampleCatalog .first {}
  have hdepth : (t.trace ("a", "x")).depth < 4 := by
    have hle := t.depth_trace_le ("a", "x")
    have hcard : (("a", "x") :: t.targets).toFinset.card = 3 := by decide
    omega
  have hroot : t.trace ("a", "x") = { service := "a", method := "x", calls := [first] } := by
    have hrun : t.traceWithin 4 [] ("a", "x") =
        some { service := "a", method := "x", calls := [first] } := by cbv
    exact Option.some.inj ((t.traceWithin_eq hdepth).symm.trans hrun)
  have hcallers : t.callers = [("a", "x")] := by
    have htriggers : t.triggers = [("a", "x")] := by decide
    simp [callers, htriggers, hroot]
  have hforest : forest = [t.trace ("a", "x")] := t.traceAll_of_callers_eq hcallers
  have hkeys : t.KeysFit := by
    intro m hm
    rw [hcallers, List.mem_singleton] at hm
    rw [hm, keyOf, hroot]
    -- as a list of characters, the key can be computed
    simp only [first, second, marker, structuralKey_eq, childKey_eq, childKeys_eq_map,
      List.map_cons, List.map_nil, Text.utf8ByteSize_eq_encode, toList_keyText,
      sortStrings_singleton, Json.quotedItems_cons]
    decide +kernel
  obtain ⟨tree, hwrite, hbytes⟩ := exists_write_chains forest
  exact ⟨hforest.trans (by rw [hroot]), tree, hwrite, hbytes,
    readChains_traceAll loopSites sampleCatalog .first {} tree "chains.json" hkeys hbytes⟩

end Tracer

end ServiceChains
