import Mathlib
import ServiceChains.Proofs.Template

/-!
# The literals of a template

A placeholder reaches from an opening brace to the next closing one. A template is cut at its
placeholders into literals in exactly one way, unless an opening brace is never closed; then it is
refused. A path is accepted exactly if it is the literals in order, with a segment between any two of
them, and at most one further slash at either end. There may be several ways to see a path like this,
since a segment may contain what the next literal begins with.
-/
namespace ServiceChains.Template

/-- A template with the literals into which its placeholders cut it. -/
inductive Cut : List Char → List (List Char) → Prop
  | whole {literal} : '{' ∉ literal → Cut literal [literal]
  | placeholder {literal name rest literals} : '{' ∉ literal → '}' ∉ name → Cut rest literals →
      Cut (literal ++ '{' :: (name ++ '}' :: rest)) (literal :: literals)

theorem exists_of_cutFrom_inside {cs : List Char} {literals : List (List Char)}
    (h : cutFrom true [] cs = some literals) :
    ∃ name rest, '}' ∉ name ∧ cs = name ++ '}' :: rest ∧ cutFrom false [] rest = some literals := by
  induction cs with
  | nil => simp [cutFrom] at h
  | cons c cs ih =>
    by_cases hc : c = '}'
    · subst hc
      exact ⟨[], cs, by simp, rfl, by simpa [cutFrom] using h⟩
    · have hnext : cutFrom true [] cs = some literals := by simpa [cutFrom, hc] using h
      obtain ⟨name, rest, hname, rfl, hcut⟩ := ih hnext
      exact ⟨c :: name, rest, by simp [hname, Ne.symm hc], rfl, hcut⟩

theorem cut_of_cutFrom {current cs : List Char} {literals : List (List Char)}
    (h : cutFrom false current cs = some literals) (hcurrent : '{' ∉ current) :
    Cut (current.reverse ++ cs) literals := by
  -- Behind a placeholder the text is shorter by more than one character.
  induction hsize : cs.length using Nat.strong_induction_on generalizing current cs literals with
  | h size ih =>
    subst hsize
    cases cs with
    | nil =>
      have hlast : literals = [current.reverse] := by simpa [cutFrom, eq_comm] using h
      rw [hlast, List.append_nil]
      exact .whole (by simpa using hcurrent)
    | cons c cs =>
      by_cases hc : c = '{'
      · subst hc
        have hnext : ∃ later, cutFrom true [] cs = some later ∧ current.reverse :: later = literals := by
          simpa [cutFrom] using h
        obtain ⟨later, hlater, rfl⟩ := hnext
        obtain ⟨name, rest, hname, rfl, hrest⟩ := exists_of_cutFrom_inside hlater
        have hshorter : rest.length < ('{' :: (name ++ '}' :: rest)).length := by
          simp only [List.length_cons, List.length_append]
          omega
        have hcut := ih _ hshorter hrest (by simp) rfl
        exact .placeholder (by simpa using hcurrent) hname (by simpa using hcut)
      · have hnext : cutFrom false (c :: current) cs = some literals := by
          simpa [cutFrom, hc] using h
        have hcut := ih _ (Nat.lt_succ_self _) hnext (by simp [hcurrent, Ne.symm hc]) rfl
        simpa using hcut

theorem cutFrom_literal {literal : List Char} (h : '{' ∉ literal) (current cs : List Char) :
    cutFrom false current (literal ++ cs) = cutFrom false (literal.reverse ++ current) cs := by
  induction literal generalizing current with
  | nil => rfl
  | cons c literal ih =>
    rw [List.mem_cons, not_or] at h
    rw [List.cons_append, cutFrom, if_neg (by simp), if_neg (Ne.symm h.1), ih h.2]
    simp

/-- A template is cut in the one way that there is. -/
theorem literals?_eq_some_iff {template : List Char} {literals : List (List Char)} :
    literals? template = some literals ↔ Cut template literals := by
  constructor
  · intro h
    simpa using cut_of_cutFrom h (by simp)
  · intro h
    induction h with
    | @whole literal hliteral =>
      have hcut := cutFrom_literal hliteral [] []
      simpa [literals?, cutFrom] using hcut
    | @placeholder literal name rest literals hliteral hname _ ih =>
      rw [literals?, cutFrom_literal hliteral, cutFrom, if_neg (by simp), if_pos rfl,
        cutFrom_inside hname, ← literals?, ih]
      simp

theorem Cut.ne_nil {template : List Char} {literals : List (List Char)} (h : Cut template literals) :
    literals ≠ [] := by
  cases h <;> exact List.cons_ne_nil _ _

section

variable {marks : List Mark} {path : List Char}

theorem fits_literal_iff (literal : List Char) :
    Fits (literal.map .one ++ marks) path ↔ ∃ rest, path = literal ++ rest ∧ Fits marks rest := by
  constructor
  · intro h
    induction literal generalizing path with
    | nil => exact ⟨path, rfl, h⟩
    | cons c literal ih =>
      cases h with
      | one h =>
        obtain ⟨rest, rfl, hrest⟩ := ih h
        exact ⟨rest, rfl, hrest⟩
  · rintro ⟨rest, rfl, hrest⟩
    exact fits_literal literal hrest

/-- The remainder of a segment may be empty. -/
theorem exists_of_fits_within (h : Fits (.within :: marks) path) :
    ∃ more rest, '/' ∉ more ∧ path = more ++ rest ∧ Fits marks rest := by
  induction path with
  | nil =>
    cases h with
    | ended h => exact ⟨[], [], by simp, rfl, h⟩
  | cons c path ih =>
    cases h with
    | further hc h =>
      obtain ⟨more, rest, hmore, rfl, hrest⟩ := ih h
      exact ⟨c :: more, rest, by simp [hmore, Ne.symm hc], rfl, hrest⟩
    | ended h => exact ⟨[], c :: path, by simp, rfl, h⟩

theorem fits_segment_iff :
    Fits (.segment :: marks) path ↔
      ∃ value rest, IsSegment value ∧ path = value ++ rest ∧ Fits marks rest := by
  constructor
  · intro h
    cases h with
    | @segment c _ path hc h =>
      obtain ⟨more, rest, hmore, rfl, hrest⟩ := exists_of_fits_within h
      exact ⟨c :: more, rest, ⟨by simp, by simp [hmore, Ne.symm hc]⟩, rfl, hrest⟩
  · rintro ⟨value, rest, hvalue, rfl, hrest⟩
    exact fits_segment hvalue hrest

theorem fits_slash_iff :
    Fits (.slash :: marks) path ↔
      ∃ around rest, IsOptionalSlash around ∧ path = around ++ rest ∧ Fits marks rest := by
  constructor
  · intro h
    cases h with
    | slash h => exact ⟨['/'], _, .inr rfl, rfl, h⟩
    | noSlash h => exact ⟨[], path, .inl rfl, rfl, h⟩
  · rintro ⟨_, rest, rfl | rfl, rfl, hrest⟩
    · exact .noSlash hrest
    · exact .slash hrest

end

/-- Literals with a value between any two of them. -/
def weave : List (List Char) → List (List Char) → List Char
  | [], _ => []
  | literal :: _, [] => literal
  | literal :: literals, value :: values => literal ++ (value ++ weave literals values)

/-- One segment for each gap between two literals. -/
structure Bridges (literals values : List (List Char)) : Prop where
  length : values.length + 1 = literals.length
  segments : ∀ value ∈ values, IsSegment value

theorem bridges_singleton_iff {literal : List Char} {values : List (List Char)} :
    Bridges [literal] values ↔ values = [] := by
  constructor
  · rintro ⟨hlength, _⟩
    simpa using hlength
  · rintro rfl
    exact ⟨rfl, by simp⟩

theorem bridges_cons_iff {literal : List Char} {literals values : List (List Char)}
    (hne : literals ≠ []) :
    Bridges (literal :: literals) values ↔
      ∃ value later, values = value :: later ∧ IsSegment value ∧ Bridges literals later := by
  constructor
  · rintro ⟨hlength, hsegments⟩
    cases values with
    | nil => simp [hne] at hlength
    | cons value later =>
      rw [List.forall_mem_cons] at hsegments
      exact ⟨value, later, rfl, hsegments.1, by simpa using hlength, hsegments.2⟩
  · rintro ⟨value, later, rfl, hvalue, hlength, hsegments⟩
    exact ⟨by simpa using hlength, List.forall_mem_cons.mpr ⟨hvalue, hsegments⟩⟩

/-- The marks between literals describe the texts with a segment in each gap. -/
theorem fits_marksBetween_iff {literals : List (List Char)} (hne : literals ≠ [])
    {marks : List Mark} {path : List Char} :
    Fits (marksBetween literals ++ marks) path ↔
      ∃ values rest, Bridges literals values ∧ path = weave literals values ++ rest ∧
        Fits marks rest := by
  induction literals generalizing path with
  | nil => exact absurd rfl hne
  | cons literal literals ih =>
    by_cases hlast : literals = []
    · subst hlast
      simp [marksBetween, fits_literal_iff, bridges_singleton_iff, weave]
    · rw [marksBetween_cons hlast, List.append_assoc, List.cons_append, fits_literal_iff]
      simp only [fits_segment_iff, ih hlast, bridges_cons_iff hlast]
      constructor
      · rintro ⟨_, rfl, value, _, hvalue, rfl, later, rest, hlater, rfl, hrest⟩
        exact ⟨value :: later, rest, ⟨value, later, rfl, hvalue, hlater⟩, by simp [weave], hrest⟩
      · rintro ⟨_, rest, ⟨value, later, rfl, hvalue, hlater⟩, rfl, hrest⟩
        exact ⟨value ++ (weave literals later ++ rest), by simp [weave], value, _, hvalue, rfl,
          later, rest, hlater, rfl, hrest⟩

/-- Literals with a segment in each gap, and at most one slash at either end. -/
def Spells (literals : List (List Char)) (path : List Char) : Prop :=
  ∃ lead values trail, IsOptionalSlash lead ∧ Bridges literals values ∧ IsOptionalSlash trail ∧
    path = lead ++ (weave literals values ++ trail)

/-- A compiled template accepts what its literals spell. -/
theorem accepts_iff_spells {template : String} {marks : List Mark}
    (hcompiled : compile template = .ok marks) {literals : List (List Char)}
    (hcut : Cut template.toList literals) (path : List Char) :
    accepts marks path = true ↔ Spells literals path := by
  obtain ⟨literals', hliterals, rfl⟩ := compile_eq_ok_iff.mp hcompiled
  obtain rfl : literals' = literals := by
    rw [literals?_eq_some_iff.mpr hcut] at hliterals
    exact (Option.some.inj hliterals).symm
  have hend : ∀ trail : List Char, Fits [.slash] trail ↔ IsOptionalSlash trail := by
    intro trail
    rw [fits_slash_iff]
    constructor
    · rintro ⟨around, _, haround, rfl, hrest⟩
      cases hrest
      rwa [List.append_nil]
    · intro htrail
      exact ⟨trail, [], htrail, by simp, .done⟩
  rw [accepts_iff_fits, List.cons_append, fits_slash_iff]
  simp only [fits_marksBetween_iff hcut.ne_nil, hend]
  constructor
  · rintro ⟨lead, _, hlead, rfl, values, trail, hvalues, rfl, htrail⟩
    exact ⟨lead, values, trail, hlead, hvalues, htrail, rfl⟩
  · rintro ⟨lead, values, trail, hlead, hvalues, htrail, rfl⟩
    exact ⟨lead, _, hlead, rfl, values, trail, hvalues, rfl, htrail⟩

theorem compile_eq_error_iff {template : String} {e : ExtractionError} :
    compile template = .error e ↔
      literals? template.toList = none ∧ e = .badTemplate template "unterminated path variable" := by
  unfold compile
  cases literals? template.toList with
  | none => simp [eq_comm]
  | some literals => simp

/-- A template is refused exactly if an opening brace has no closing one behind it. Otherwise there is
one way to cut it at its placeholders, and it accepts exactly what its literals spell. -/
theorem compile_accepts_spelled (template : String) :
    (compile template = .error (.badTemplate template "unterminated path variable") ↔
      ∃ before after, template.toList = before ++ '{' :: after ∧ '}' ∉ after) ∧
    ((∀ before after, template.toList = before ++ '{' :: after → '}' ∈ after) ↔
      ∃ marks literals, compile template = .ok marks ∧
        (∀ other, Cut template.toList other ↔ other = literals) ∧
        ∀ path, accepts marks path = true ↔ Spells literals path) := by
  have hclosed := literals?_isSome_iff template.toList
  refine ⟨?_, ?_, ?_⟩
  · rw [compile_eq_error_iff, ← Option.not_isSome_iff_eq_none, hclosed, Closed]
    simp
  · intro h
    obtain ⟨literals, hliterals⟩ := Option.isSome_iff_exists.mp (hclosed.mpr h)
    have hcompiled := compile_eq_ok_iff.mpr ⟨literals, hliterals, rfl⟩
    have hcut : Cut template.toList literals := literals?_eq_some_iff.mp hliterals
    refine ⟨_, literals, hcompiled, ?_, accepts_iff_spells hcompiled hcut⟩
    intro other
    rw [← literals?_eq_some_iff, hliterals, Option.some.injEq, eq_comm]
  · rintro ⟨marks, literals, hcompiled, -, -⟩
    obtain ⟨literals', hliterals, -⟩ := compile_eq_ok_iff.mp hcompiled
    exact hclosed.mp (Option.isSome_iff_exists.mpr ⟨literals', hliterals⟩)

/-- What stands for a placeholder may contain the literal behind it, but may not be empty. -/
example : (compile "a/\x7bx\x7d.b").toOption.map (accepts · "/a/v.b.b".toList) = some true ∧
    (compile "a/\x7bx\x7d.b").toOption.map (accepts · "/a/.b".toList) = some false := by
  decide

end ServiceChains.Template
