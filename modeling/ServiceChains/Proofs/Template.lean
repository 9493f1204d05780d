import Mathlib
import ServiceChains.Template

/-!
# What a template accepts

Marks describe texts; a path is accepted exactly if the marks describe it. A template is compiled
exactly if each of its placeholders is closed, and then it accepts its own text with a segment in
place of each placeholder, with or without a slash at either end.
-/
namespace ServiceChains.Template

/-- A text that marks describe. -/
inductive Fits : List Mark → List Char → Prop
  | done : Fits [] []
  | one {c marks path} : Fits marks path → Fits (.one c :: marks) (c :: path)
  | segment {c marks path} : c ≠ '/' → Fits (.within :: marks) path →
      Fits (.segment :: marks) (c :: path)
  | further {c marks path} : c ≠ '/' → Fits (.within :: marks) path →
      Fits (.within :: marks) (c :: path)
  | ended {marks path} : Fits marks path → Fits (.within :: marks) path
  | slash {marks path} : Fits marks path → Fits (.slash :: marks) ('/' :: path)
  | noSlash {marks path} : Fits marks path → Fits (.slash :: marks) path

theorem fits_nil_iff (marks : List Mark) : Fits marks [] ↔ mayEnd marks = true := by
  induction marks with
  | nil => exact ⟨fun _ => rfl, fun _ => .done⟩
  | cons mark marks ih =>
    cases mark with
    | one c => exact ⟨nofun, nofun⟩
    | segment => exact ⟨nofun, nofun⟩
    | within =>
      rw [mayEnd, ← ih]
      exact ⟨fun h => by cases h; assumption, .ended⟩
    | slash =>
      rw [mayEnd, ← ih]
      exact ⟨fun h => by cases h; assumption, .noSlash⟩

/-- What may follow after a character describes the texts that begin with it. -/
theorem fits_cons_iff (c : Char) (path : List Char) (marks : List Mark) :
    Fits marks (c :: path) ↔ ∃ next ∈ derive c marks, Fits next path := by
  induction marks with
  | nil => simpa [derive] using fun h : Fits [] (c :: path) => by cases h
  | cons mark marks ih =>
    cases mark with
    | one d =>
      by_cases hd : c = d
      · subst hd
        simp only [derive, if_true, List.mem_singleton, exists_eq_left]
        exact ⟨fun h => by cases h; assumption, .one⟩
      · simp only [derive, if_neg hd, List.not_mem_nil, false_and, exists_false, iff_false]
        intro h
        cases h
        exact hd rfl
    | segment =>
      by_cases hc : c = '/'
      · simp only [derive, if_pos hc, List.not_mem_nil, false_and, exists_false, iff_false]
        intro h
        cases h
        contradiction
      · simp only [derive, if_neg hc, List.mem_singleton, exists_eq_left]
        exact ⟨fun h => by cases h; assumption, .segment hc⟩
    | within =>
      have hsplit : Fits (.within :: marks) (c :: path) ↔
          (c ≠ '/' ∧ Fits (.within :: marks) path) ∨ Fits marks (c :: path) := by
        constructor
        · intro h
          cases h with
          | further hc h => exact .inl ⟨hc, h⟩
          | ended h => exact .inr h
        · rintro (⟨hc, h⟩ | h)
          · exact .further hc h
          · exact .ended h
      rw [hsplit, ih]
      by_cases hc : c = '/' <;> simp [derive, hc]
    | slash =>
      have hsplit : Fits (.slash :: marks) (c :: path) ↔
          (c = '/' ∧ Fits marks path) ∨ Fits marks (c :: path) := by
        constructor
        · intro h
          cases h with
          | slash h => exact .inl ⟨rfl, h⟩
          | noSlash h => exact .inr h
        · rintro (⟨rfl, h⟩ | h)
          · exact .slash h
          · exact .noSlash h
      rw [hsplit, ih]
      by_cases hc : c = '/' <;> simp [derive, hc]

theorem any_mayEnd_foldl_advance (path : List Char) (states : List (List Mark)) :
    (path.foldl advance states).any mayEnd = true ↔ ∃ marks ∈ states, Fits marks path := by
  induction path generalizing states with
  | nil =>
    simp only [List.foldl_nil, List.any_eq_true]
    exact exists_congr fun marks => and_congr_right fun _ => (fits_nil_iff marks).symm
  | cons c path ih =>
    rw [List.foldl_cons, ih]
    simp only [advance, List.mem_eraseDups, List.mem_flatMap, fits_cons_iff]
    constructor
    · rintro ⟨next, ⟨marks, hmarks, hnext⟩, h⟩
      exact ⟨marks, hmarks, next, hnext, h⟩
    · rintro ⟨marks, hmarks, next, hnext, h⟩
      exact ⟨next, ⟨marks, hmarks, hnext⟩, h⟩

/-- A path is accepted exactly if the marks describe it. -/
theorem accepts_iff_fits (marks : List Mark) (path : List Char) :
    accepts marks path = true ↔ Fits marks path := by
  rw [accepts, any_mayEnd_foldl_advance]
  simp

/-- Every opening brace has a closing one behind it. -/
def Closed (template : List Char) : Prop :=
  ∀ before after, template = before ++ '{' :: after → '}' ∈ after

theorem closed_cons_iff (c : Char) (cs : List Char) :
    Closed (c :: cs) ↔ (c = '{' → '}' ∈ cs) ∧ Closed cs := by
  constructor
  · intro h
    refine ⟨?_, ?_⟩
    · rintro rfl
      exact h [] cs rfl
    · intro before after hcut
      exact h (c :: before) after (by rw [hcut, List.cons_append])
  · rintro ⟨hhead, htail⟩ before after hcut
    cases before with
    | nil =>
      obtain ⟨rfl, rfl⟩ := List.cons.inj hcut
      exact hhead rfl
    | cons d before =>
      obtain ⟨rfl, rfl⟩ := List.cons.inj hcut
      exact htail before after rfl

/-- A text is cut at its placeholders exactly if each of them is closed. -/
theorem cutFrom_isSome_iff (inside : Bool) (current cs : List Char) :
    (cutFrom inside current cs).isSome = true ↔ (inside = true → '}' ∈ cs) ∧ Closed cs := by
  induction cs generalizing inside current with
  | nil => cases inside <;> simp [cutFrom, Closed]
  | cons c cs ih =>
    rw [closed_cons_iff]
    cases inside with
    | true =>
      by_cases hc : c = '}'
      · simp [cutFrom, hc, ih]
      · -- Another opening brace inside a placeholder is closed along with it.
        simp only [cutFrom, hc, if_true, if_false, ih, List.mem_cons, Ne.symm hc, false_or]
        tauto
    | false =>
      by_cases hc : c = '{'
      · simp [cutFrom, hc, ih]
      · simp [cutFrom, hc, ih]

theorem literals?_isSome_iff (template : List Char) :
    (literals? template).isSome = true ↔ Closed template := by
  simp [literals?, cutFrom_isSome_iff]

/-- A template with a value for each placeholder; which values there may be is given. -/
inductive Filled (admits : List Char → Prop) : List Char → List Char → Prop
  | done : Filled admits [] []
  | literal {c template path} : c ≠ '{' → Filled admits template path →
      Filled admits (c :: template) (c :: path)
  | placeholder {name value template path} : '}' ∉ name → admits value →
      Filled admits template path →
      Filled admits ('{' :: (name ++ '}' :: template)) (value ++ path)

/-- A value for a placeholder: not empty and without a slash. -/
def IsSegment (value : List Char) : Prop :=
  value ≠ [] ∧ '/' ∉ value

theorem cutFrom_inside {name : List Char} (h : '}' ∉ name) (cs : List Char) :
    cutFrom true [] (name ++ '}' :: cs) = cutFrom false [] cs := by
  induction name with
  | nil => simp [cutFrom]
  | cons c name ih =>
    rw [List.mem_cons, not_or] at h
    simp [cutFrom, Ne.symm h.1, ih h.2]

theorem cutFrom_ne_some_nil (inside : Bool) (current cs : List Char) :
    cutFrom inside current cs ≠ some [] := by
  induction cs generalizing inside current with
  | nil => cases inside <;> simp [cutFrom]
  | cons c cs ih =>
    simp only [cutFrom]
    split_ifs
    · exact ih false []
    · exact ih true []
    · simp
    · exact ih false (c :: current)

theorem marksBetween_cons {literal : List Char} {rest : List (List Char)} (h : rest ≠ []) :
    marksBetween (literal :: rest) = literal.map .one ++ .segment :: marksBetween rest := by
  cases rest with
  | nil => exact absurd rfl h
  | cons next rest => rfl

theorem fits_literal (literal : List Char) {marks : List Mark} {path : List Char}
    (h : Fits marks path) : Fits (literal.map .one ++ marks) (literal ++ path) := by
  induction literal with
  | nil => exact h
  | cons c literal ih => exact .one ih

theorem fits_segment {value : List Char} (hvalue : IsSegment value) {marks : List Mark}
    {path : List Char} (h : Fits marks path) : Fits (.segment :: marks) (value ++ path) := by
  have hwithin : ∀ more : List Char, '/' ∉ more → Fits (.within :: marks) (more ++ path) := by
    intro more hmore
    induction more with
    | nil => exact .ended h
    | cons c more ih =>
      rw [List.mem_cons, not_or] at hmore
      exact .further (Ne.symm hmore.1) (ih hmore.2)
  obtain ⟨hne, hslash⟩ := hvalue
  cases value with
  | nil => exact absurd rfl hne
  | cons c value =>
    rw [List.mem_cons, not_or] at hslash
    exact .segment (Ne.symm hslash.1) (hwithin value hslash.2)

/-- The marks of a template describe it with segments for its placeholders. -/
theorem fits_of_filled {template path : List Char} (h : Filled IsSegment template path)
    {current : List Char} {literals : List (List Char)}
    (hcut : cutFrom false current template = some literals) {marks : List Mark} {rest : List Char}
    (hrest : Fits marks rest) :
    Fits (marksBetween literals ++ marks) (current.reverse ++ (path ++ rest)) := by
  induction h generalizing current literals with
  | done =>
    have hlast : literals = [current.reverse] := by simpa [cutFrom, eq_comm] using hcut
    subst hlast
    exact fits_literal _ hrest
  | @literal c template path hc h ih =>
    have hnext : cutFrom false (c :: current) template = some literals := by
      simpa [cutFrom, hc] using hcut
    simpa using ih hnext
  | @placeholder name value template path hname hvalue h ih =>
    simp only [cutFrom, Bool.false_eq_true, if_false, if_true, cutFrom_inside hname,
      Option.map_eq_some_iff] at hcut
    obtain ⟨later, hlater, rfl⟩ := hcut
    have hne : later ≠ [] := by
      rintro rfl
      exact cutFrom_ne_some_nil _ _ _ hlater
    have hpath : Fits (marksBetween later ++ marks) (path ++ rest) := by simpa using ih hlater
    rw [marksBetween_cons hne, List.append_assoc, List.cons_append, List.append_assoc]
    exact fits_literal _ (fits_segment hvalue hpath)

theorem compile_eq_ok_iff {template : String} {marks : List Mark} :
    compile template = .ok marks ↔ ∃ literals, literals? template.toList = some literals ∧
      marks = .slash :: marksBetween literals ++ [.slash] := by
  unfold compile
  cases literals? template.toList with
  | none => simp
  | some literals => simp [eq_comm]

/-- A slash or nothing. -/
def IsOptionalSlash (cs : List Char) : Prop :=
  cs = [] ∨ cs = ['/']

/-- A compiled template accepts what it is filled to, with or without a slash at either end. -/
theorem accepts_of_filled {template : String} {marks : List Mark}
    (hcompiled : compile template = .ok marks) {path : List Char}
    (hfilled : Filled IsSegment template.toList path) {lead trail : List Char}
    (hlead : IsOptionalSlash lead) (htrail : IsOptionalSlash trail) :
    accepts marks (lead ++ (path ++ trail)) = true := by
  obtain ⟨literals, hliterals, rfl⟩ := compile_eq_ok_iff.mp hcompiled
  have hend : Fits [.slash] trail := by
    rcases htrail with rfl | rfl
    · exact .noSlash .done
    · exact .slash .done
  have hpath : Fits (marksBetween literals ++ [.slash]) (path ++ trail) := by
    simpa using fits_of_filled hfilled hliterals hend
  rw [accepts_iff_fits]
  rcases hlead with rfl | rfl
  · exact .noSlash hpath
  · exact .slash hpath

end ServiceChains.Template
