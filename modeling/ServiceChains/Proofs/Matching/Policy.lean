import ServiceChains.Proofs.Matching

/-!
# What a policy chooses

The endpoints of a service that a call reaches stand at places of the catalog. If there are any, each
policy chooses one of them: the first, or the one with the most text before its first placeholder. Of
several with equally much text the second policy chooses the first as well, since its best one so far
is replaced only by a strictly better one.
-/
namespace ServiceChains

section Places

variable {α : Type} {p : α → Bool} {items : List α} {x : α}

/-- Where a kept item stands, and where the kept items before and behind it stand. -/
theorem exists_place_of_filter_eq {before after : List α}
    (h : items.filter p = before ++ x :: after) :
    ∃ i : Nat, items[i]? = some x ∧ p x = true ∧ ∀ (j : Nat) (y : α), items[j]? = some y →
      p y = true → j < i ∧ y ∈ before ∨ j = i ∨ i < j ∧ y ∈ after := by
  obtain ⟨front, back, rfl, hfront, hback⟩ := List.filter_eq_append_iff.mp h
  obtain ⟨dropped, rest, rfl, hdropped, hx, hrest⟩ := List.filter_eq_cons_iff.mp hback
  refine ⟨(front ++ dropped).length, ?_, hx, ?_⟩
  · rw [← List.append_assoc, List.getElem?_append_right le_rfl, Nat.sub_self]
    rfl
  · intro j y hy hkept
    rw [← List.append_assoc] at hy
    rcases lt_trichotomy j (front ++ dropped).length with hlt | heq | hgt
    · rw [List.getElem?_append_left hlt] at hy
      refine .inl ⟨hlt, ?_⟩
      rcases List.mem_append.mp (List.mem_of_getElem? hy) with hmem | hmem
      · rw [← hfront]
        exact List.mem_filter.mpr ⟨hmem, hkept⟩
      · exact absurd hkept (hdropped y hmem)
    · exact .inr (.inl heq)
    · rw [List.getElem?_append_right hgt.le, List.getElem?_cons, if_neg (by omega)] at hy
      refine .inr (.inr ⟨hgt, ?_⟩)
      rw [← hrest]
      exact List.mem_filter.mpr ⟨List.mem_of_getElem? hy, hkept⟩

/-- An item that is kept cuts what is kept into what stood before it and what stood behind it. -/
theorem exists_filter_eq_of_place {i : Nat} (hx : items[i]? = some x) (hkept : p x = true) :
    ∃ before after, items.filter p = before ++ x :: after ∧
      (∀ y ∈ before, p y = true ∧ ∃ j < i, items[j]? = some y) ∧
      ∀ y ∈ after, p y = true ∧ ∃ j : Nat, items[j]? = some y := by
  obtain ⟨hi, rfl⟩ := List.getElem?_eq_some_iff.mp hx
  refine ⟨(items.take i).filter p, (items.drop (i + 1)).filter p, ?_, ?_, ?_⟩
  · conv_lhs => rw [← List.take_append_drop i items, List.drop_eq_getElem_cons hi]
    rw [List.filter_append, List.filter_cons_of_pos hkept]
  · intro y hy
    obtain ⟨hmem, hy⟩ := List.mem_filter.mp hy
    obtain ⟨j, hj⟩ := List.mem_iff_getElem?.mp hmem
    rw [List.getElem?_take] at hj
    split_ifs at hj with hlt
    exact ⟨hy, j, hlt, hj⟩
  · intro y hy
    obtain ⟨hmem, hy⟩ := List.mem_filter.mp hy
    exact ⟨hy, List.mem_iff_getElem?.mp (List.mem_of_mem_drop hmem)⟩

end Places

namespace Endpoint

/-- The chosen endpoint has more literal text than all before it and no less than all behind it. -/
theorem longest?_eq_some_iff {es : List Endpoint} {e : Endpoint} :
    longest? es = some e ↔ ∃ before after, es = before ++ e :: after ∧
      (∀ b ∈ before, b.literalPrefixSize < e.literalPrefixSize) ∧
      ∀ a ∈ after, a.literalPrefixSize ≤ e.literalPrefixSize := by
  classical
  rw [longest?_eq_argmax, List.argmax_eq_some_iff]
  constructor
  · rintro ⟨hmem, hgreatest, hfirst⟩
    have hplace : es.idxOf e < es.length := List.idxOf_lt_length_of_mem hmem
    have hsplit : es = es.take (es.idxOf e) ++ e :: es.drop (es.idxOf e + 1) := by
      conv_lhs => rw [← List.take_append_drop (es.idxOf e) es, List.drop_eq_getElem_cons hplace,
        List.getElem_idxOf]
    refine ⟨_, _, hsplit, ?_, ?_⟩
    · intro b hb
      by_contra hle
      have hb' := List.mem_of_mem_take hb
      have hlater := hfirst b hb' (Nat.le_of_not_lt hle)
      have hearlier := (List.mem_take_iff_idxOf_lt hb').mp hb
      omega
    · exact fun a ha => hgreatest a (List.mem_of_mem_drop ha)
  · rintro ⟨before, after, rfl, hbefore, hafter⟩
    have hnot {a : Endpoint} (ha : e.literalPrefixSize ≤ a.literalPrefixSize) : a ∉ before :=
      fun hmem => absurd (hbefore a hmem) (Nat.not_lt.mpr ha)
    refine ⟨by simp, ?_, ?_⟩
    · intro a ha
      rcases List.mem_append.mp ha with ha | ha
      · exact (hbefore a ha).le
      · rcases List.mem_cons.mp ha with rfl | ha
        · exact le_rfl
        · exact hafter a ha
    · intro a _ hle
      rw [List.idxOf_append_of_notMem (hnot le_rfl), List.idxOf_append_of_notMem (hnot hle),
        List.idxOf_cons_self]
      omega

end Endpoint

namespace Catalog

/-- In the place `i` of the endpoints of its target service a call reaches the endpoint `e`. -/
def ReachedAt (c : Catalog) (site : CallSite) (i : Nat) (e : Endpoint) : Prop :=
  (c.endpoints site.target)[i]? = some e ∧ e.satisfies site.endpoint site.verb = true

section Chosen

variable (c : Catalog) (site : CallSite) (e : Endpoint)

theorem match?_first_eq_some_iff :
    c.match? .first site = some e ↔
      ∃ i, c.ReachedAt site i e ∧ ∀ j e', c.ReachedAt site j e' → i ≤ j := by
  constructor
  · intro h
    obtain ⟨after, hsplit⟩ := List.head?_eq_some_iff.mp h
    rw [← List.nil_append (e :: after)] at hsplit
    obtain ⟨i, hi, hreached, hothers⟩ := exists_place_of_filter_eq hsplit
    refine ⟨i, ⟨hi, hreached⟩, ?_⟩
    rintro j e' ⟨hj, hreached'⟩
    rcases hothers j e' hj hreached' with ⟨-, hmem⟩ | heq | ⟨hgt, -⟩
    · cases hmem
    · exact heq.ge
    · exact hgt.le
  · rintro ⟨i, ⟨hi, hreached⟩, hleast⟩
    obtain ⟨before, after, hsplit, hbefore, -⟩ :=
      exists_filter_eq_of_place (p := (·.satisfies site.endpoint site.verb)) hi hreached
    have hnil : before = [] := by
      rw [List.eq_nil_iff_forall_not_mem]
      intro e' he'
      obtain ⟨hreached', j, hlt, hj⟩ := hbefore e' he'
      have hle := hleast j e' ⟨hj, hreached'⟩
      omega
    rw [hnil] at hsplit
    exact List.head?_eq_some_iff.mpr ⟨after, hsplit⟩

theorem match?_longestPrefix_eq_some_iff :
    c.match? .longestPrefix site = some e ↔
      ∃ i, c.ReachedAt site i e ∧
        (∀ j e', c.ReachedAt site j e' → e'.literalPrefixSize ≤ e.literalPrefixSize) ∧
        ∀ j e', j < i → c.ReachedAt site j e' → e'.literalPrefixSize < e.literalPrefixSize := by
  have hlongest : c.match? .longestPrefix site = some e ↔ ∃ before after,
      (c.endpoints site.target).filter (·.satisfies site.endpoint site.verb) =
        before ++ e :: after ∧
      (∀ b ∈ before, b.literalPrefixSize < e.literalPrefixSize) ∧
      ∀ a ∈ after, a.literalPrefixSize ≤ e.literalPrefixSize := Endpoint.longest?_eq_some_iff
  rw [hlongest]
  constructor
  · rintro ⟨before, after, hsplit, hbefore, hafter⟩
    obtain ⟨i, hi, hreached, hothers⟩ := exists_place_of_filter_eq hsplit
    refine ⟨i, ⟨hi, hreached⟩, ?_, ?_⟩
    · rintro j e' ⟨hj, hreached'⟩
      rcases hothers j e' hj hreached' with ⟨-, hmem⟩ | rfl | ⟨-, hmem⟩
      · exact (hbefore e' hmem).le
      · rw [Option.some.inj (hj.symm.trans hi)]
      · exact hafter e' hmem
    · rintro j e' hlt ⟨hj, hreached'⟩
      rcases hothers j e' hj hreached' with ⟨-, hmem⟩ | heq | ⟨hgt, -⟩
      · exact hbefore e' hmem
      · omega
      · omega
  · rintro ⟨i, ⟨hi, hreached⟩, hgreatest, hstrict⟩
    obtain ⟨before, after, hsplit, hbefore, hafter⟩ :=
      exists_filter_eq_of_place (p := (·.satisfies site.endpoint site.verb)) hi hreached
    refine ⟨before, after, hsplit, ?_, ?_⟩
    · intro e' he'
      obtain ⟨hreached', j, hlt, hj⟩ := hbefore e' he'
      exact hstrict j e' hlt ⟨hj, hreached'⟩
    · intro e' he'
      obtain ⟨hreached', j, hj⟩ := hafter e' he'
      exact hgreatest j e' ⟨hj, hreached'⟩

variable {c site e}

/-- What a policy chooses is reached. -/
theorem exists_reachedAt_of_match? {policy : Policy} (h : c.match? policy site = some e) :
    ∃ i, c.ReachedAt site i e := by
  cases policy with
  | first =>
    obtain ⟨i, hi, -⟩ := (c.match?_first_eq_some_iff site e).mp h
    exact ⟨i, hi⟩
  | longestPrefix =>
    obtain ⟨i, hi, -⟩ := (c.match?_longestPrefix_eq_some_iff site e).mp h
    exact ⟨i, hi⟩

end Chosen

/-- Under every policy a call is resolved exactly if it reaches an endpoint of its target service. One
policy chooses the endpoint reached in the first place, the other one the endpoint with the most
literal text of all that are reached, and with more than those in earlier places. The verb is that of
the call. -/
theorem match?_chooses_reached (c : Catalog) (site : CallSite) :
    (∀ policy, (∃ e, c.match? policy site = some e) ↔ ∃ i e, c.ReachedAt site i e) ∧
    (∀ e, c.match? .first site = some e ↔
      ∃ i, c.ReachedAt site i e ∧ ∀ j e', c.ReachedAt site j e' → i ≤ j) ∧
    (∀ e, c.match? .longestPrefix site = some e ↔
      ∃ i, c.ReachedAt site i e ∧
        (∀ j e', c.ReachedAt site j e' → e'.literalPrefixSize ≤ e.literalPrefixSize) ∧
        ∀ j e', j < i → c.ReachedAt site j e' → e'.literalPrefixSize < e.literalPrefixSize) ∧
    ∀ policy e, c.match? policy site = some e → e.verb = site.verb := by
  refine ⟨?_, c.match?_first_eq_some_iff site, c.match?_longestPrefix_eq_some_iff site, ?_⟩
  · intro policy
    constructor
    · rintro ⟨e, he⟩
      obtain ⟨i, hi⟩ := exists_reachedAt_of_match? he
      exact ⟨i, e, hi⟩
    · rintro ⟨i, e, he, hreached⟩
      obtain ⟨e', -, hmatch⟩ :=
        c.exists_match?_of_satisfies (List.mem_of_getElem? he) hreached policy
      exact ⟨e', hmatch⟩
  · intro policy e he
    obtain ⟨i, -, hreached⟩ := exists_reachedAt_of_match? he
    simp only [Endpoint.satisfies, Bool.and_eq_true, beq_iff_eq] at hreached
    exact hreached.1

/-- Everything below a path. -/
def anyEndpoint : Endpoint :=
  ⟨"Orders", "any", "api/\x7brest\x7d", .get, _, rfl⟩

/-- An endpoint for orders with a given verb, handled by a given method. -/
def ordersEndpoint (method : String) (verb : Verb) : Endpoint :=
  ⟨"Orders", method, "api/orders", verb, _, rfl⟩

/-- Endpoints of which the first has a shorter literal text than the others. -/
def tiedCatalog : Catalog :=
  ⟨[("shop", [anyEndpoint, ordersEndpoint "add" .post, ordersEndpoint "all" .get,
    ordersEndpoint "again" .get])]⟩

/-- A call that reaches all of them but the one with another verb. -/
def tiedSite : CallSite :=
  ⟨"web", "Cart.show", "shop", "/api/orders", .get⟩

/-- Of two endpoints with equally much literal text the first is chosen, and the one with another verb
does not count although it stands before both. -/
theorem match?_chooses_reached_tied :
    tiedCatalog.ReachedAt tiedSite 2 (ordersEndpoint "all" .get) ∧
      tiedCatalog.ReachedAt tiedSite 3 (ordersEndpoint "again" .get) ∧
      tiedCatalog.match? .first tiedSite = some anyEndpoint ∧
      tiedCatalog.match? .longestPrefix tiedSite = some (ordersEndpoint "all" .get) ∧
      (ordersEndpoint "all" .get).verb = tiedSite.verb := by
  obtain ⟨-, hfirst, hlongest, hverb⟩ := match?_chooses_reached tiedCatalog tiedSite
  have hany : tiedCatalog.ReachedAt tiedSite 0 anyEndpoint := ⟨rfl, by decide⟩
  have hall : tiedCatalog.ReachedAt tiedSite 2 (ordersEndpoint "all" .get) := ⟨rfl, by decide⟩
  have hagain : tiedCatalog.ReachedAt tiedSite 3 (ordersEndpoint "again" .get) := ⟨rfl, by decide⟩
  have hgreatest : ∀ e ∈ tiedCatalog.endpoints "shop", e.literalPrefixSize ≤ 10 := by decide
  have hchosen := (hlongest (ordersEndpoint "all" .get)).mpr ⟨2, hall, ?_, ?_⟩
  · exact ⟨hall, hagain, (hfirst anyEndpoint).mpr ⟨0, hany, fun j _ _ => Nat.zero_le j⟩, hchosen,
      hverb _ _ hchosen⟩
  · rintro j e ⟨hj, -⟩
    exact hgreatest e (List.mem_of_getElem? hj)
  · rintro j e hlt ⟨hj, hreached⟩
    obtain rfl | rfl : j = 0 ∨ j = 1 := by omega
    · cases hj
      decide
    · cases hj
      exact absurd hreached (by decide)

end Catalog

end ServiceChains
