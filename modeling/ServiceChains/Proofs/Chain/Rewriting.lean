import Mathlib
import ServiceChains.Proofs.Chain.Artifact

/-!
# Rewriting the artifact of chains

A node may be written in several ways, and what stands below a loop marker may be written though it is
never kept. Reading and writing once brings all of them to one form. That form nests no deeper than the
reader goes, whatever was read: a node takes two levels, one for itself and one for its calls, so a
budget that is enough for a node is enough for an empty list of calls in it as well.
-/
namespace ServiceChains

open ChainNode

namespace Json

/-- At most so many arrays and objects stand inside one another. -/
inductive NestsWithin : Nat → Json → Prop
  | null {k} : NestsWithin k .null
  | bool {k} (b : Bool) : NestsWithin k (.bool b)
  | number {k} (text : String) : NestsWithin k (.number text)
  | string {k} (text : Option String) : NestsWithin k (.string text)
  | array {k} {items : List Json} : (∀ j ∈ items, NestsWithin k j) →
      NestsWithin (k + 1) (.array items)
  | object {k} {fields : List (Option String × Json)} : (∀ f ∈ fields, NestsWithin k f.2) →
      NestsWithin (k + 1) (.object fields)

theorem nestsWithin_array_iff {k : Nat} {items : List Json} :
    NestsWithin (k + 1) (.array items) ↔ ∀ j ∈ items, NestsWithin k j :=
  ⟨fun h => by cases h; assumption, .array⟩

theorem nestsWithin_object_iff {k : Nat} {fields : List (Option String × Json)} :
    NestsWithin (k + 1) (.object fields) ↔ ∀ f ∈ fields, NestsWithin k f.2 :=
  ⟨fun h => by cases h; assumption, .object⟩

theorem nestsWithin_of_mem_field? {k : Nat} {name : String} {value : Option Json}
    (h : ∀ j ∈ value, NestsWithin k j) : ∀ f ∈ field? name value, NestsWithin k f.2 := by
  intro f hf
  cases value with
  | none => cases hf
  | some j =>
    rw [List.mem_singleton.mp hf]
    exact h j rfl

end Json

namespace ChainNode

/-- A node takes a level for itself and, unless it is a loop marker, one for its calls. -/
theorem nestsWithin_toJson_iff (n : ChainNode) (k : Nat) :
    n.toJson.NestsWithin (k + 2) ↔
      (n.isLoop = false → ∀ c ∈ n.calls, c.toJson.NestsWithin k) := by
  have htext : ∀ s : String, (Json.text s).NestsWithin (k + 1) := fun s => .string (some s)
  have hendpoint : ∀ f ∈ Json.field? "endpoint" (n.endpoint.map Json.text),
      f.2.NestsWithin (k + 1) := by
    apply Json.nestsWithin_of_mem_field?
    simp [htext]
  have hverb : ∀ f ∈ Json.field? "http_method" (n.verb.map fun v => Json.text v.name),
      f.2.NestsWithin (k + 1) := by
    apply Json.nestsWithin_of_mem_field?
    simp [htext]
  have hcount : ∀ f ∈ Json.field? "count" (n.count.map Json.word), f.2.NestsWithin (k + 1) := by
    apply Json.nestsWithin_of_mem_field?
    simp [Json.word, Json.NestsWithin.number]
  rw [toJson_eq, Json.nestsWithin_object_iff]
  simp only [List.forall_mem_append, iff_true_intro hendpoint, iff_true_intro hverb,
    iff_true_intro hcount, and_true]
  cases hn : n.isLoop with
  | true => simp [Json.field, htext, Json.NestsWithin.bool]
  | false => simp [Json.field, htext, Json.nestsWithin_array_iff]

/-- A node is written within so many levels exactly if it has half as many, markers apart. -/
theorem nestsWithin_toJson_iff_depth (n : ChainNode) (k : Nat) :
    n.toJson.NestsWithin (2 * k) ↔ n.pruned.depth < k := by
  induction n using induction_calls generalizing k with
  | step n ih =>
    cases k with
    | zero =>
      rw [toJson_eq]
      exact iff_of_false nofun (by omega)
    | succ k =>
      rw [Nat.mul_succ, nestsWithin_toJson_iff, depth_lt_succ_iff, pruned_eq]
      cases hn : n.isLoop with
      | true => simp [withCalls]
      | false =>
        simp only [withCalls, Bool.false_eq_true, ↓reduceIte, List.forall_mem_map, true_imp_iff]
        exact forall₂_congr fun c hc => ih c hc k

theorem exists_of_mem_mapM {α β : Type} {read : α → Option β} {xs : List α} {ys : List β}
    (h : xs.mapM read = some ys) {y : β} (hy : y ∈ ys) : ∃ x ∈ xs, read x = some y := by
  induction xs generalizing ys with
  | nil =>
    cases h
    cases hy
  | cons x xs ih =>
    simp only [List.mapM_cons, Option.bind_eq_bind, Option.bind_eq_some_iff, Option.pure_def,
      Option.some.injEq] at h
    obtain ⟨first, hfirst, others, hothers, rfl⟩ := h
    rcases List.mem_cons.mp hy with rfl | hy
    · exact ⟨x, by simp, hfirst⟩
    · obtain ⟨x', hx', hread⟩ := ih hothers hy
      exact ⟨x', by simp [hx'], hread⟩

/-- The calls of a node that was read were read two levels further in, however it was spelled. -/
theorem exists_of_mem_calls {budget : Nat} {j : Json} {n c : ChainNode}
    (h : ofJson? (budget + 2) j = some n) (hc : c ∈ n.calls) :
    ∃ j', ofJson? budget j' = some c := by
  rw [ofJson?] at h
  split at h
  · next service method calls endpoint verb count isLoop hvalues =>
    simp only [Option.bind_eq_bind, Option.bind_eq_some_iff, Option.pure_def] at h
    obtain ⟨_, _, _, _, h⟩ := h
    -- The calls are missing, an array of nodes, or something else, which is refused.
    split at h
    · simp only [Option.bind_some, Option.bind_eq_some_iff, Option.some.injEq] at h
      obtain ⟨_, _, _, _, _, _, _, _, rfl⟩ := h
      cases hc
    · next items heq =>
      simp only [Option.bind_eq_some_iff, Option.some.injEq] at h
      obtain ⟨_, hcalls, _, _, _, _, _, _, _, _, rfl⟩ := h
      obtain ⟨j', _, hj'⟩ := exists_of_mem_mapM hcalls hc
      obtain rfl := Nat.succ.inj heq
      exact ⟨j', hj'⟩
    · cases h
  · cases h

/-- A node that was read is no deeper than the budget allows for nodes with calls. -/
theorem depth_lt_of_ofJson? {k : Nat} {j : Json} {n : ChainNode} (h : ofJson? (2 * k) j = some n) :
    n.depth < k := by
  induction k generalizing j n with
  | zero =>
    rw [Nat.mul_zero, ofJson?] at h
    cases h
  | succ k ih =>
    rw [depth_lt_succ_iff]
    intro c hc
    obtain ⟨j', hj'⟩ := exists_of_mem_calls h hc
    exact ih hj'

theorem depth_pruned_le (n : ChainNode) : n.pruned.depth ≤ n.depth := by
  induction n using induction_calls with
  | step n ih =>
    rw [← Nat.lt_succ_iff, depth_lt_succ_iff, pruned_eq]
    intro c hc
    simp only [withCalls] at hc
    split_ifs at hc
    · cases hc
    · obtain ⟨d, hd, rfl⟩ := List.mem_map.mp hc
      exact (ih d hd).trans_lt (depth_lt_of_mem hd)

/-- A node is written like the tree without what stands below loop markers. -/
theorem toJson_pruned (n : ChainNode) : n.pruned.toJson = n.toJson := by
  induction n using induction_calls with
  | step n ih =>
    have hcalls : n.calls.map (fun c => c.pruned.toJson) = n.calls.map toJson :=
      List.map_congr_left ih
    rw [toJson_eq, toJson_eq, pruned_eq]
    cases hn : n.isLoop with
    | true => simp [withCalls, hn]
    | false => simp [withCalls, hn, Function.comp_def, hcalls]

end ChainNode

namespace ChainForest

theorem toJson_map_pruned (f : ChainForest) : toJson (f.map pruned) = f.toJson := by
  rw [toJson_eq, toJson_eq, List.map_map]
  congr 1
  exact List.map_congr_left fun n _ => n.toJson_pruned

/-- A forest nests no deeper than the reader goes exactly if no chain has more than sixty-two steps. -/
theorem nestsWithin_toJson_iff (f : ChainForest) :
    f.toJson.NestsWithin Json.nestingLimit ↔ ∀ root ∈ f.map pruned, root.depth ≤ 62 := by
  have hlimit : Json.nestingLimit = 2 * 63 + 1 := rfl
  rw [hlimit, toJson_eq, Json.nestsWithin_array_iff, List.forall_mem_map, List.forall_mem_map]
  apply forall₂_congr
  intro root _
  rw [root.nestsWithin_toJson_iff_depth, Nat.lt_succ_iff]

/-- No chain of a forest that was read is deeper than sixty-two steps. -/
theorem depth_le_of_ofJson? {j : Json} {f : ChainForest}
    (h : ofJson? Json.nestingLimit j = some f) : ∀ root ∈ f, root.depth ≤ 62 := by
  intro root hroot
  simp only [ofJson?, Option.bind_eq_bind, Option.bind_eq_some_iff] at h
  obtain ⟨⟨budget, items⟩, hitems, hread⟩ := h
  obtain ⟨j', _, hj'⟩ := exists_of_mem_mapM hread hroot
  have hbudget : budget = 2 * 63 := by
    unfold Json.items? at hitems
    split at hitems
    · rw [if_neg (by decide)] at hitems
      cases hitems
      rfl
    · cases hitems
  rw [hbudget] at hj'
  have hlt := depth_lt_of_ofJson? hj'
  omega

end ChainForest

namespace Artifact

theorem depth_le_of_readChains {t : FileTree} {path : String} {f : ChainForest}
    (h : readChains t path = .ok f) : ∀ root ∈ f, root.depth ≤ 62 := by
  unfold readChains read at h
  split at h
  · cases h
  · split at h
    · cases h
    · next hread =>
      cases h
      exact ChainForest.depth_le_of_ofJson? hread

/-- The text of a forest is accepted exactly if no chain of it is deeper than sixty-two steps, what
stands below loop markers apart, which is how deep its arrays and objects may be nested; the forest is
read back without what stands there. If the forest was itself read from some text, its own text is
accepted, and what is read from that is written as the same text again. -/
theorem readChains_rewritten {t : FileTree} {path : String} {f : ChainForest}
    (htext : t.bytes? path = some f.toJson.render.toUTF8) :
    ((∃ g, readChains t path = .ok g) ↔ ∀ root ∈ f.map pruned, root.depth ≤ 62) ∧
    (f.toJson.NestsWithin Json.nestingLimit ↔ ∀ root ∈ f.map pruned, root.depth ≤ 62) ∧
    (∀ g, readChains t path = .ok g → g = f.map pruned) ∧
    (∀ source place, readChains source place = .ok f →
      ∃ g, readChains t path = .ok g ∧ g.toJson.render = f.toJson.render) := by
  have hread := readChains_of_bytes? htext
  have hfits : (∀ root ∈ f, 2 * root.pruned.depth + 3 ≤ Json.nestingLimit) ↔
      ∀ root ∈ f.map pruned, root.depth ≤ 62 := by
    rw [List.forall_mem_map]
    apply forall₂_congr
    intro root _
    unfold Json.nestingLimit
    omega
  simp only [hfits] at hread
  refine ⟨?_, f.nestsWithin_toJson_iff, ?_, ?_⟩
  · rw [hread]
    split_ifs with hdepth
    · exact iff_of_true ⟨_, rfl⟩ hdepth
    · exact iff_of_false (by simp) hdepth
  · intro g hg
    rw [hread] at hg
    split_ifs at hg
    cases hg
    rfl
  · intro source place hsource
    have hdepth : ∀ root ∈ f.map pruned, root.depth ≤ 62 := by
      rw [List.forall_mem_map]
      intro root hroot
      exact root.depth_pruned_le.trans (depth_le_of_readChains hsource root hroot)
    refine ⟨f.map pruned, ?_, by rw [f.toJson_map_pruned]⟩
    rw [hread, if_pos hdepth]

/-- Nodes as arrays and as an object, an unknown name, a `null`, a verb as an object, and a call below a
loop marker. -/
def spelledText : String :=
  "[[\"a\",\"m\",[[\"b\",\"n\",[\x7b\"service\":\"c\",\"x\":[],\"method\":\"o\"\x7d],null," ++
    "\x7b\"GET\":null\x7d,2,true]]]]"

/-- What stands in the text. -/
def spelledValue : Json :=
  let below := Json.object [Json.field "service" (.text "c"), Json.field "x" (.array []),
    Json.field "method" (.text "o")]
  .array [.array [.text "a", .text "m", .array [.array [.text "b", .text "n", .array [below], .null,
    .object [Json.field "GET" .null], .number "2", .bool true]]]]

/-- A call that leads to a loop marker with or without a node below it. -/
def spelledForest (below : List ChainNode) : ChainForest :=
  [{ service := "a", method := "m",
     calls := [{ service := "b", method := "n", calls := below, verb := some .get, count := some 2,
                 isLoop := true }] }]

/-- The text is read with the call below the marker and rewritten without it. -/
theorem readChains_rewritten_spelled :
    let given : FileTree := ⟨[(["in.json"], .file spelledText.toUTF8)], []⟩
    let f := spelledForest [{ service := "c", method := "o" }]
    readChains given "in.json" = .ok f ∧
      ∃ t, write "chains.json" f.toJson {} = (.ok (), t) ∧
        t.bytes? "chains.json" = some f.toJson.render.toUTF8 ∧
        readChains t "chains.json" = .ok (spelledForest []) ∧
        ChainForest.toJson (spelledForest []) = f.toJson := by
  intro given f
  have hname : Path.Names "in.json" "in.json" := by decide
  have hvalue : Json.parse? spelledText = some spelledValue := by cbv
  have hforest : ChainForest.ofJson? Json.nestingLimit spelledValue =
      some (spelledForest [{ service := "c", method := "o" }]) := by cbv
  have hgiven : readChains given "in.json" = .ok f := by
    have hbytes : given.bytes? "in.json" = some spelledText.toUTF8 :=
      FileTree.bytes?_name hname rfl rfl
    have hjson : readJson given "in.json" = .ok spelledValue := by
      simp only [readJson, hbytes, Text.fromUTF8?_toUTF8, Option.bind_some, hvalue]
    simp only [readChains, read, hjson, hforest, f]
  have hpruned : f.map pruned = spelledForest [] := by
    simp [f, spelledForest, pruned, pruneds]
  obtain ⟨t, hwrite, htext⟩ := Tracer.exists_write_chains f
  obtain ⟨_, _, hexact, hagain⟩ := readChains_rewritten htext
  obtain ⟨g, hg, _⟩ := hagain given "in.json" hgiven
  rw [hexact g hg, hpruned] at hg
  exact ⟨hgiven, t, hwrite, htext, hg, by rw [← hpruned, f.toJson_map_pruned]⟩

end Artifact

end ServiceChains
