import ServiceChains.Matching
import ServiceChains.Proofs.Template
import ServiceChains.Proofs.Text.Blank

/-!
# Calls that reach an endpoint

A call reaches an endpoint whose template it fills, or whose template it is, with or without a slash
at either end. If an endpoint of the target service is reached, every policy chooses one of those that
are, and the policy that takes the first takes none behind it.
-/
namespace ServiceChains

open Text Template

namespace Endpoint

theorem template_of_declare {unit method path : String} {verb : Verb} {e : Endpoint}
    (h : declare unit method path verb = .ok e) : e.template = withoutOuterSlashes path := by
  simp only [declare] at h
  split at h
  · cases h
    rfl
  · cases h

variable (e : Endpoint)

theorem closed_template : Closed e.template.toList := by
  obtain ⟨literals, hliterals, _⟩ := compile_eq_ok_iff.mp e.compiled
  apply (literals?_isSome_iff _).mp
  rw [hliterals]
  rfl

/-- A path without quotes reaches an endpoint whose template accepts it behind a slash, or which has
the same text apart from slashes at the ends, or which has a placeholder and begins with it. -/
theorem satisfies_iff {path : String} (hquotes : '"' ∉ path.toList) :
    e.satisfies path e.verb = true ↔
      e.accepts (withLeadingSlash path.toList) = true ∨
      trimSlashes path.toList = trimSlashes e.template.toList ∨
      (path.toList.getLast? = some '/' ∧
        trimSlashes path.toList <+: trimSlashes e.template.toList ∧ e.isTemplated = true) := by
  have hraw : stripWhile (· == '"') path.toList = path.toList := by
    apply stripWhile_of_stripped
    apply stripped_of_forall
    intro x hx
    exact beq_eq_false_iff_ne.mpr fun heq => hquotes (heq ▸ hx)
  simp only [satisfies, hraw, beq_self_eq_true, Bool.true_and, Bool.or_eq_true, Bool.and_eq_true,
    beq_iff_eq, List.isPrefixOf_iff_prefix]
  tauto

theorem forall_of_isOptionalSlash {cs : List Char} (h : IsOptionalSlash cs) :
    ∀ x ∈ cs, (x == '/') = true := by
  rcases h with rfl | rfl <;> simp

/-- An endpoint is reached by its own template. -/
theorem satisfies_template (hstripped : Stripped (· == '/') e.template.toList)
    {lead trail : List Char} (hlead : IsOptionalSlash lead) (htrail : IsOptionalSlash trail)
    {path : String} (hpath : path.toList = lead ++ (e.template.toList ++ trail))
    (hquotes : '"' ∉ path.toList) : e.satisfies path e.verb = true := by
  rw [e.satisfies_iff hquotes]
  right
  left
  rw [hpath, trimSlashes, trimSlashes, stripWhile_of_stripped hstripped]
  exact stripWhile_around (forall_of_isOptionalSlash hlead) hstripped
    (forall_of_isOptionalSlash htrail)

/-- An endpoint is reached by its template with segments for its placeholders. -/
theorem satisfies_filled {filled : List Char} (hfilled : Filled IsSegment e.template.toList filled)
    {lead trail : List Char} (hlead : IsOptionalSlash lead) (htrail : IsOptionalSlash trail)
    {path : String} (hpath : path.toList = lead ++ (filled ++ trail))
    (hquotes : '"' ∉ path.toList) : e.satisfies path e.verb = true := by
  rw [e.satisfies_iff hquotes]
  left
  rw [hpath]
  rcases hlead with rfl | rfl
  · -- Whether a slash is put in front depends on what the template begins with; both are accepted.
    unfold withLeadingSlash
    split
    · exact accepts_of_filled e.compiled hfilled (.inl rfl) htrail
    · exact accepts_of_filled e.compiled hfilled (.inr rfl) htrail
  · exact accepts_of_filled e.compiled hfilled (.inr rfl) htrail

/-- Of several endpoints with the longest literal text the first is taken. -/
theorem longest?_eq_argmax (es : List Endpoint) : longest? es = es.argmax literalPrefixSize := by
  unfold longest? List.argmax
  congr 1
  funext best e
  cases best <;> rfl

theorem exists_longest? {es : List Endpoint} (h : es ≠ []) : ∃ e ∈ es, longest? es = some e := by
  have hsome : es.argmax literalPrefixSize ≠ none := fun hnone => h (List.argmax_eq_none.mp hnone)
  obtain ⟨e, he⟩ := Option.ne_none_iff_exists'.mp hsome
  exact ⟨e, List.argmax_mem he, (longest?_eq_argmax es).trans he⟩

end Endpoint

theorem Policy.exists_choose (p : Policy) {es : List Endpoint} (h : es ≠ []) :
    ∃ e ∈ es, p.choose es = some e := by
  cases p with
  | first => exact ⟨es.head h, List.head_mem h, List.head?_eq_some_head h⟩
  | longestPrefix => exact Endpoint.exists_longest? h

namespace Catalog

variable (c : Catalog)

/-- A call that reaches some endpoint is resolved under every policy. -/
theorem exists_match?_of_satisfies {site : CallSite} {e : Endpoint}
    (he : e ∈ c.endpoints site.target) (hs : e.satisfies site.endpoint site.verb = true)
    (p : Policy) : ∃ e' ∈ c.endpoints site.target, c.match? p site = some e' := by
  have hfits : e ∈ (c.endpoints site.target).filter (·.satisfies site.endpoint site.verb) :=
    List.mem_filter.mpr ⟨he, hs⟩
  obtain ⟨e', he', hchosen⟩ := p.exists_choose (List.ne_nil_of_mem hfits)
  exact ⟨e', (List.mem_filter.mp he').1, hchosen⟩

/-- The first endpoint that is reached stands no later than any other. -/
theorem match?_first_le {site : CallSite} {e : Endpoint} {i : Nat}
    (he : (c.endpoints site.target)[i]? = some e)
    (hs : e.satisfies site.endpoint site.verb = true) :
    ∃ j ≤ i, ∃ e', (c.endpoints site.target)[j]? = some e' ∧ c.match? .first site = some e' := by
  obtain ⟨e', _, hmatch⟩ := c.exists_match?_of_satisfies (List.mem_of_getElem? he) hs .first
  have hfind : (c.endpoints site.target).find? (·.satisfies site.endpoint site.verb) = some e' := by
    rw [← List.head?_filter]
    exact hmatch
  obtain ⟨_, j, hj, rfl, hearlier⟩ := List.find?_eq_some_iff_getElem.mp hfind
  refine ⟨j, ?_, _, List.getElem?_eq_getElem hj, hmatch⟩
  by_contra hlater
  obtain ⟨hi, rfl⟩ := List.getElem?_eq_some_iff.mp he
  have hnot := hearlier i (by omega)
  simp [hs] at hnot

end Catalog

end ServiceChains
