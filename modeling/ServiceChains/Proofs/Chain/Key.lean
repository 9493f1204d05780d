import Mathlib.Data.List.Perm.Basic
import ServiceChains.Chain.Key
import ServiceChains.Proofs.Chain.Occurrence
import ServiceChains.Proofs.Json.Quoted
import ServiceChains.Proofs.Sorting

/-!
# Structural keys are complete

Two trees are alike if they are equal up to the order of siblings, all counts and the method of the
root. Each part of a key can be read off its text, at every depth, and sorting the keys of siblings
forgets nothing but their order. So two trees have the same key exactly if they are alike. Keys are
long, though: the key of a child is quoted in that of its parent, so that the length is exponential
in the depth.
-/
namespace ServiceChains.ChainNode

open Json

theorem selfDelimiting_quotedOrNull : SelfDelimiting fun o => (quotedOrNull o).toList := by
  intro o p r s h
  cases o with
  | none =>
    cases p with
    | none => exact ⟨rfl, List.append_cancel_left h⟩
    | some y => simp [quotedOrNull, quote] at h
  | some x =>
    cases p with
    | none => simp [quotedOrNull, quote] at h
    | some y =>
      simp only [quotedOrNull, toList_quoted] at h
      obtain ⟨hxy, hrs⟩ := selfDelimiting_quote_toList _ _ _ _ h
      exact ⟨by rw [hxy], hrs⟩

theorem selfDelimiting_flag :
    SelfDelimiting fun b : Bool => (if b then "true" else "false").toList := by
  intro b c r s h
  cases b <;> cases c <;> simp_all

theorem verb_name_injective : Function.Injective fun v : Option Verb => v.map Verb.name := by
  apply Option.map_injective
  intro v w h
  have hv := Verb.ofName?_name v
  rw [h, Verb.ofName?_name w] at hv
  exact (Option.some.inj hv).symm

/-- The characters of a key, part by part. -/
theorem toList_keyText (children : List String) (endpoint : Option String) (verb : Option Verb)
    (isLoop : Bool) (method : Option String) (service : String) :
    (keyText children endpoint verb isLoop method service).toList =
      "\x7b\"calls\":[".toList ++ (quotedItems (sortStrings children) ++
      (",\"endpoint\":".toList ++ ((quotedOrNull endpoint).toList ++
      (",\"http_method\":".toList ++ ((quotedOrNull (verb.map Verb.name)).toList ++
      (",\"loop\":".toList ++ ((if isLoop then "true" else "false").toList ++
      (",\"method\":".toList ++ ((quotedOrNull method).toList ++
      (",\"service\":".toList ++ (quote service.toList ++ "\x7d".toList))))))))))) := by
  unfold keyText
  simp only [String.toList_append, toList_quoted, quotedItems, List.append_assoc]
  rfl

/-- Each part of a key can be read off its text; of the children's keys, all but their order. -/
theorem keyText_eq_iff {children children' : List String} {endpoint endpoint' : Option String}
    {verb verb' : Option Verb} {isLoop isLoop' : Bool} {method method' : Option String}
    {service service' : String} :
    keyText children endpoint verb isLoop method service =
        keyText children' endpoint' verb' isLoop' method' service' ↔
      children.Perm children' ∧ endpoint = endpoint' ∧ verb = verb' ∧ isLoop = isLoop' ∧
        method = method' ∧ service = service' := by
  constructor
  · intro h
    have htext := congrArg String.toList h
    rw [toList_keyText, toList_keyText] at htext
    obtain ⟨hcalls, h⟩ := selfDelimiting_quotedItems _ _ _ _ (List.append_cancel_left htext)
    obtain ⟨hendpoint, h⟩ := selfDelimiting_quotedOrNull _ _ _ _ (List.append_cancel_left h)
    obtain ⟨hverb, h⟩ := selfDelimiting_quotedOrNull _ _ _ _ (List.append_cancel_left h)
    obtain ⟨hloop, h⟩ := selfDelimiting_flag _ _ _ _ (List.append_cancel_left h)
    obtain ⟨hmethod, h⟩ := selfDelimiting_quotedOrNull _ _ _ _ (List.append_cancel_left h)
    obtain ⟨hservice, _⟩ := selfDelimiting_quote_toList _ _ _ _ (List.append_cancel_left h)
    exact ⟨sortStrings_eq_iff.mp hcalls, hendpoint, verb_name_injective hverb, hloop, hmethod,
      hservice⟩
  · rintro ⟨hperm, rfl, rfl, rfl, rfl, rfl⟩
    unfold keyText
    rw [sortStrings_eq_iff.mpr hperm]

theorem childKey_eq (n : ChainNode) :
    n.childKey = keyText (childKeys n.calls) n.endpoint n.verb n.isLoop (some n.method) n.service := by
  cases n
  rw [childKey]

theorem structuralKey_eq (n : ChainNode) :
    n.structuralKey = keyText (childKeys n.calls) n.endpoint n.verb n.isLoop none n.service := by
  cases n
  rw [structuralKey]

theorem childKeys_eq_map (calls : List ChainNode) : childKeys calls = calls.map childKey := by
  induction calls with
  | nil => rw [childKeys, List.map_nil]
  | cons c calls ih => rw [childKeys, List.map_cons, ih]

mutual

/-- Equal up to counts and the order of siblings. -/
def AlikeBelow : ChainNode → ChainNode → Prop
  | ⟨service, method, calls, endpoint, verb, _, isLoop⟩, other =>
    service = other.service ∧ method = other.method ∧ endpoint = other.endpoint ∧
      verb = other.verb ∧ isLoop = other.isLoop ∧
      ∃ reordered, reordered.Perm other.calls ∧ AllAlike calls reordered

/-- Alike one by one. -/
def AllAlike : List ChainNode → List ChainNode → Prop
  | [], [] => True
  | n :: ns, other :: others => AlikeBelow n other ∧ AllAlike ns others
  | _, _ => False

end

/-- Equal up to counts, the order of siblings and the method of the root. -/
def Alike (n other : ChainNode) : Prop :=
  n.service = other.service ∧ n.endpoint = other.endpoint ∧ n.verb = other.verb ∧
    n.isLoop = other.isLoop ∧
    ∃ reordered, reordered.Perm other.calls ∧ AllAlike n.calls reordered

theorem alikeBelow_iff (n other : ChainNode) :
    AlikeBelow n other ↔ n.service = other.service ∧ n.method = other.method ∧
      n.endpoint = other.endpoint ∧ n.verb = other.verb ∧ n.isLoop = other.isLoop ∧
      ∃ reordered, reordered.Perm other.calls ∧ AllAlike n.calls reordered := by
  cases n
  rw [AlikeBelow]

/-- Nodes are alike one by one if their keys are the same one by one. -/
theorem allAlike_iff_forall₂ {ns : List ChainNode}
    (h : ∀ n ∈ ns, ∀ other, n.childKey = other.childKey ↔ AlikeBelow n other)
    (others : List ChainNode) :
    AllAlike ns others ↔ List.Forall₂ (fun n other => n.childKey = other.childKey) ns others := by
  induction ns generalizing others with
  | nil => cases others <;> simp [AllAlike]
  | cons n ns ih =>
    cases others with
    | nil => simp [AllAlike]
    | cons other others =>
      rw [AllAlike, List.forall₂_cons, h n (by simp) other,
        ih (fun c hc => h c (by simp [hc])) others]

/-- Lists of keys agree up to their order if the nodes behind them can be reordered to agree. -/
theorem childKeys_perm_iff (ns others : List ChainNode) :
    (childKeys ns).Perm (childKeys others) ↔ ∃ reordered, reordered.Perm others ∧
      List.Forall₂ (fun n other => n.childKey = other.childKey) ns reordered := by
  rw [childKeys_eq_map, childKeys_eq_map]
  constructor
  · intro hperm
    have hkeys : List.Forall₂ (fun key (other : ChainNode) => key = other.childKey)
        (others.map childKey) others := by
      rw [List.forall₂_map_left_iff]
      exact List.forall₂_same.mpr fun _ _ => rfl
    obtain ⟨reordered, hall, hre⟩ := List.perm_comp_forall₂ hperm hkeys
    exact ⟨reordered, hre, List.forall₂_map_left_iff.mp hall⟩
  · rintro ⟨reordered, hre, hall⟩
    have heq : ns.map childKey = reordered.map childKey := by
      rw [← List.forall₂_eq_eq_eq, List.forall₂_map_left_iff, List.forall₂_map_right_iff]
      exact hall
    rw [heq]
    exact hre.map childKey

/-- Below a root, the same key means alike. -/
theorem childKey_eq_iff (n other : ChainNode) :
    n.childKey = other.childKey ↔ AlikeBelow n other := by
  -- Only `n` gets smaller: the children of `other` are compared in any order.
  induction n using induction_calls generalizing other with
  | step n ih =>
    rw [childKey_eq, childKey_eq, keyText_eq_iff, childKeys_perm_iff, alikeBelow_iff,
      Option.some.injEq]
    simp only [allAlike_iff_forall₂ ih]
    tauto

/-- A key tells whether its tree has a call. -/
theorem calls_eq_nil_iff_of_structuralKey_eq {a b : ChainNode}
    (h : a.structuralKey = b.structuralKey) : a.calls = [] ↔ b.calls = [] := by
  rw [structuralKey_eq, structuralKey_eq, keyText_eq_iff, childKeys_eq_map, childKeys_eq_map] at h
  have hlen := h.1.length_eq
  rw [List.length_map, List.length_map] at hlen
  rw [← List.length_eq_zero_iff, hlen, List.length_eq_zero_iff]

/-- Two roots have the same structural key exactly if they are equal up to counts, the order of
siblings and their own methods. -/
theorem structuralKey_eq_iff_alike (a b : ChainNode) :
    a.structuralKey = b.structuralKey ↔ Alike a b := by
  rw [structuralKey_eq, structuralKey_eq, keyText_eq_iff, childKeys_perm_iff, Alike]
  simp only [allAlike_iff_forall₂ fun n _ other => childKey_eq_iff n other]
  tauto

theorem two_mul_countP_le_keyText {key : String} {children : List String} (h : key ∈ children)
    (endpoint : Option String) (verb : Option Verb) (isLoop : Bool) (method : Option String)
    (service : String) :
    2 * key.toList.countP isDoubled ≤
      (keyText children endpoint verb isLoop method service).toList.countP isDoubled := by
  have hsorted : key ∈ sortStrings children := (sortStrings_perm children).mem_iff.mpr h
  have hitem := (quote_sublist_quotedItems hsorted).countP_le (p := isDoubled)
  have hquote := two_mul_countP_le_quote key.toList
  simp only [toList_keyText, List.countP_append]
  omega

/-- A key doubles with each level, since the key of a child is quoted in that of its parent. -/
theorem two_pow_depth_le_keyText (n : ChainNode) (method : Option String) :
    2 ^ n.depth ≤ (keyText (childKeys n.calls) n.endpoint n.verb n.isLoop method
      n.service).toList.countP isDoubled := by
  induction n using induction_calls generalizing method with
  | step n ih =>
    by_cases hn : n.calls = []
    · have hdepth : n.depth = 0 := by rw [depth_eq, hn, depths]
      rw [hdepth, pow_zero, List.one_le_countP_iff]
      exact ⟨'"', by simp [toList_keyText], rfl⟩
    · obtain ⟨c, hc, hdepth⟩ := exists_depths_eq hn
      have hkey : c.childKey ∈ childKeys n.calls := by
        rw [childKeys_eq_map]
        exact List.mem_map_of_mem hc
      have hchild := ih c hc (some c.method)
      rw [← childKey_eq] at hchild
      have hparent :=
        two_mul_countP_le_keyText hkey n.endpoint n.verb n.isLoop method n.service
      rw [depth_eq, hdepth, pow_succ]
      omega

theorem two_pow_depth_le_structuralKey (n : ChainNode) : 2 ^ n.depth ≤ n.structuralKey.length := by
  calc
    2 ^ n.depth ≤ n.structuralKey.toList.countP isDoubled := by
      rw [structuralKey_eq]
      exact n.two_pow_depth_le_keyText none
    _ ≤ n.structuralKey.toList.length := List.countP_le_length
    _ = n.structuralKey.length := String.length_toList

end ServiceChains.ChainNode
